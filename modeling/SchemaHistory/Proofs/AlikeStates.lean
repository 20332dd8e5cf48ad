import SchemaHistory.Proofs.OperationEffects
import SchemaHistory.Proofs.Parts

/-!
# States that are alike

Two states are alike if their models have the same parts. What can differ then is the order of the
fields of a model: one state may have had a field removed and added again, another not. A database
does not care for it, since what it keeps are columns by name.

* `Part.exists_alike` and `AppSchema.Alike.exists_model` find in the one state the counterpart of a
  model of the other;
* `AppSchema.Alike.catalog` compares the tables that the two states describe, up to the order of
  columns;
* `AppSchema.Alike.heldBy` draws the conclusion: a database that holds the one state holds the
  other.
-/

namespace SchemaHistory

/-! ### Models -/

/-- Two models of one name have the same parts. -/
structure Model.Alike (m m' : Model) : Prop where
  name : m'.name = m.name
  table : m'.table = m.table
  key : m'.key = m.key
  field? : ∀ name, m'.field? name = m.field? name
  indexes : m'.indexes = m.indexes

namespace Model.Alike

variable {m m' : Model}

/-- Models that are alike have the same fields, maybe in another order. -/
theorem fields (h : m.Alike m') (hm : m.Sound) (hm' : m'.Sound) : m'.fields.Perm m.fields := by
  rw [List.perm_ext_iff_of_nodup (hm'.fields.of_map _) (hm.fields.of_map _)]
  rintro ⟨name, field⟩
  constructor
  · intro hmem
    exact Named.mem_of_get? ((h.field? name).symm.trans (Named.get?_of_mem hm'.fields hmem))
  · intro hmem
    exact Named.mem_of_get? ((h.field? name).trans (Named.get?_of_mem hm.fields hmem))

theorem columns (h : m.Alike m') (hm : m.Sound) (hm' : m'.Sound) : m'.columns.Perm m.columns :=
  (h.fields hm hm').map _

theorem tableColumns (h : m.Alike m') (hm : m.Sound) (hm' : m'.Sound) :
    m'.tableColumns.Perm m.tableColumns :=
  (h.fields hm hm').map _

/-- Indexes are looked up by name, where order does not count at all. -/
theorem indexMap (h : m.Alike m') : m'.indexMap = m.indexMap :=
  Model.indexMap_congr h.indexes fun _ _ _ name _ => h.field? name

end Model.Alike

/-- Models that have the same parts are alike, and where the one is missing the other is. -/
theorem Part.exists_alike {m : Model} {r : Option Model} (h : ∀ part : Part, part.Same (some m) r)
    (hm : m.Sound) (hr : ∀ m', r = some m' → m'.Sound) : ∃ m', r = some m' ∧ m.Alike m' := by
  obtain ⟨m', rfl, -, hname, htable, hkey⟩ := (h .shell).exists_model
  refine ⟨m', rfl, hname, htable, hkey, fun name => Eq.symm (h (.field name)), ?_⟩
  exact Named.Ordered.ext (hr m' rfl).indexes hm.indexes fun name => Eq.symm (h (.index name))

namespace AppSchema

variable {s t u : AppSchema} {db : Catalog} {m : Model} {name : String}

/-- Two states of an app whose models have the same parts. -/
structure Alike (s t : AppSchema) : Prop where
  app_eq : t.app = s.app
  same : ∀ name (part : Part), part.Same (s.model? name) (t.model? name)

theorem Alike.refl (s : AppSchema) : s.Alike s := ⟨rfl, fun _ _ => .refl _⟩

theorem Alike.symm (h : s.Alike t) : t.Alike s :=
    ⟨h.app_eq.symm, fun name part => (h.same name part).symm⟩

theorem Alike.trans (h : s.Alike t) (h' : t.Alike u) : s.Alike u :=
  ⟨h'.app_eq.trans h.app_eq, fun name part => (h.same name part).trans (h'.same name part)⟩

/-- The other state has a model that is alike. -/
theorem Alike.exists_model (h : s.Alike t) (hs : s.Sound) (ht : t.Sound)
    (hm : s.model? name = some m) :
    ∃ m', t.model? name = some m' ∧ m.Alike m' := by
  have hsame := fun part => h.same name part
  rw [hm] at hsame
  exact Part.exists_alike hsame (hs.model name m hm) fun m' => ht.model name m'

/-- Whether tables and indexes keep apart does not depend on the order of fields. -/
theorem Alike.separate (h : s.Alike t) (hs : s.Sound) (ht : t.Sound) (hsep : s.Separate) :
    t.Separate where
  apart name m name' m' hm hm' hne := by
    obtain ⟨old, hold, halike⟩ := h.symm.exists_model ht hs hm
    obtain ⟨old', hold', halike'⟩ := h.symm.exists_model ht hs hm'
    unfold Model.Apart
    rw [← halike.table, ← halike'.table, ← halike.indexes, ← halike'.indexes]
    exact hsep.apart name old name' old' hold hold' hne
  columns name m hm := by
    obtain ⟨old, hold, halike⟩ := h.symm.exists_model ht hs hm
    have hperm := halike.columns (ht.model name m hm) (hs.model name old hold)
    exact hperm.nodup_iff.mp (hsep.columns name old hold)

/-! ### Their catalogs -/

theorem Alike.hasTable {table : String} (h : s.Alike t) (hs : s.Sound) (ht : t.Sound)
    (htable : s.HasTable table) : t.HasTable table := by
  obtain ⟨name, m, hm, rfl⟩ := htable
  obtain ⟨m', hm', halike⟩ := h.exists_model hs ht hm
  exact ⟨name, m', hm', halike.table⟩

/-- States that are alike have the same tables and indexes, up to the order of columns. -/
theorem Alike.catalog (h : s.Alike t) (hs : s.Sound) (ht : t.Sound) (hsep : s.Separate) :
    s.catalog.Like List.Perm t.catalog := by
  have hsep' := h.separate hs ht hsep
  constructor
  · intro table
    by_cases hthere : s.HasTable table
    · obtain ⟨name, m, hm, rfl⟩ := hthere
      obtain ⟨m', hm', halike⟩ := h.exists_model hs ht hm
      rw [tables_catalog hs.ordered hsep hm, ← halike.table, tables_catalog ht.ordered hsep' hm']
      exact .some (halike.tableColumns (hs.model name m hm) (ht.model name m' hm')).symm
    · rw [(tables_catalog_eq_none hs.ordered).mpr hthere,
        (tables_catalog_eq_none ht.ordered).mpr (mt (h.symm.hasTable ht hs) hthere)]
      exact .none
  · funext index
    by_cases hthere : ∃ name m, s.model? name = some m ∧ m.indexMap index ≠ none
    · obtain ⟨name, m, hm, hindex⟩ := hthere
      obtain ⟨covered, hcovered⟩ := Option.ne_none_iff_exists'.mp hindex
      obtain ⟨m', hm', halike⟩ := h.exists_model hs ht hm
      rw [indexes_catalog hs.ordered hsep hm hcovered,
        indexes_catalog ht.ordered hsep' hm' (halike.indexMap ▸ hcovered), halike.table]
    · push Not at hthere
      rw [(indexes_catalog_eq_none hs.ordered).mpr hthere]
      refine ((indexes_catalog_eq_none ht.ordered).mpr fun name m hm => ?_).symm
      obtain ⟨old, hold, halike⟩ := h.symm.exists_model ht hs hm
      rw [← halike.indexMap]
      exact hthere name old hold

/-- A database that holds a state holds those that are alike. -/
theorem Alike.heldBy (h : s.Alike t) (hs : s.Sound) (ht : t.Sound) (hheld : s.HeldBy db) :
    t.HeldBy db := by
  have hlike := h.catalog hs ht hheld.separate
  refine ⟨h.separate hs ht hheld.separate, fun table => ?_, hheld.like.indexes.trans hlike.indexes⟩
  have hfirst := hheld.like.tables table
  have hlater := hlike.tables table
  revert hfirst hlater
  cases db.tables table <;> cases s.catalog.tables table <;> cases t.catalog.tables table <;>
    intro hfirst hlater <;> cases hfirst <;> cases hlater
  · exact .none
  · next hperm hperm' => exact .some (hperm.trans hperm')

end AppSchema

end SchemaHistory
