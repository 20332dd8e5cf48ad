import SchemaHistory.Proofs.SchemaChanges
import SchemaHistory.Proofs.TableEffects

/-!
# The catalog of a state

`AppSchema.catalog` is the catalog that a state of an app describes, with a table for every model. A
database can hold it if the tables and indexes of different models have different names, and so have
the columns of each model: the state is `Separate`. `AppSchema.HeldBy` is what is then asked of the
database. It need not keep the columns of a table in the order of the fields, since adding columns
and taking them away again may have left them in another one.
-/

namespace SchemaHistory

namespace Catalog

/-! ### Tables of models -/

variable {rest rest' db db' : Catalog} {models : Named Model} {m : Model} {name table : String}
  {columns columns' : List Column} {indexes : IndexMap}

def ofModels : Named Model → Catalog
  | [] => empty
  | (_, m) :: rest => (ofModels rest).put m.table m.tableColumns m.indexMap

theorem sound_ofModels : (ofModels models).Sound := by
  induction models with
  | nil => exact sound_empty
  | cons entry rest ih => exact ih.put

/-- There is no table that is not the table of a model. -/
theorem tables_ofModels_eq_none :
    (ofModels models).tables table = none ↔ ∀ entry ∈ models, entry.2.table ≠ table := by
  induction models with
  | nil => simp [ofModels, empty]
  | cons entry rest ih =>
      rw [List.forall_mem_cons, ← ih, ofModels]
      by_cases h : entry.2.table = table
      · simp [← h]
      · rw [tables_put_ne (Ne.symm h)]
        simp [h]

/-- There is no index that no model has. -/
theorem indexes_ofModels_eq_none {index : String} :
    (ofModels models).indexes index = none ↔ ∀ entry ∈ models, index ∉ entry.2.indexes.names := by
  induction models with
  | nil => simp [ofModels, empty]
  | cons entry rest ih =>
      rw [List.forall_mem_cons, ← ih, ofModels, ← indexMap_ne_none, not_not]
      cases hindex : entry.2.indexMap index with
      | none => simp [indexes_put_of_none hindex]
      | some covered => simp [indexes_put_of_some hindex]

end Catalog

/-- Two models whose tables can be in one database. -/
def Model.Apart (m m' : Model) : Prop :=
  m.table ≠ m'.table ∧ List.Disjoint m.indexes.names m'.indexes.names

theorem Model.Apart.symm {m m' : Model} (h : m.Apart m') : m'.Apart m :=
  ⟨h.1.symm, List.disjoint_symm h.2⟩

/-- Some models whose tables are taken from different parts of a list are set apart. -/
theorem Catalog.ofModels_eq_put {models : Named Model} {m : Model} {name : String}
    (hnames : models.names.Nodup)
    (hapart : ∀ x ∈ models, ∀ y ∈ models, x.1 ≠ y.1 → x.2.Apart y.2)
    (hm : models.get? name = some m) :
    ofModels models = (ofModels (models.erase name)).put m.table m.tableColumns m.indexMap := by
  induction models with
  | nil => cases hm
  | cons head rest ih =>
      obtain ⟨n, m₀⟩ := head
      obtain ⟨hnot, hrest⟩ := List.nodup_cons.mp hnames
      rw [Named.get?_cons] at hm
      split at hm
      · next hn =>
          cases hm
          obtain rfl : n = name := hn
          have hkeep := Named.erase_of_get?_eq_none (Named.get?_eq_none_iff.mpr hnot)
          rw [Named.erase] at hkeep ⊢
          rw [List.filter_cons, if_neg (by simp), hkeep]
          rfl
      · next hn =>
          have hne : n ≠ name := hn
          have hstep := ih hrest (fun x hx y hy =>
            hapart x (List.mem_cons_of_mem _ hx) y (List.mem_cons_of_mem _ hy)) hm
          have herase : Named.erase name ((n, m₀) :: rest) = (n, m₀) :: Named.erase name rest := by
            rw [Named.erase, Named.erase, List.filter_cons, if_pos (by simpa using hne)]
          have happ : m.Apart m₀ := hapart _ (List.mem_cons_of_mem _ (Named.mem_of_get? hm)) _
            List.mem_cons_self (Ne.symm hne)
          -- the head is put on top of the model, which has to change places with it
          rw [herase, ofModels, hstep, ofModels]
          refine put_comm happ.1 fun i => ?_
          by_cases hi : i ∈ m.indexes.names
          · exact Or.inr (indexMap_of_not_mem (happ.2 hi))
          · exact Or.inl (indexMap_of_not_mem hi)

namespace AppSchema

/-! ### The catalog of a state -/

/-- The tables and indexes that a state describes. -/
def catalog (state : AppSchema) : Catalog := .ofModels state.models

/-- The tables and the indexes of a state have different names, and so have the columns of each
table. -/
structure Separate (s : AppSchema) : Prop where
  apart : ∀ name m name' m', s.model? name = some m → s.model? name' = some m' → name ≠ name' →
    m.Apart m'
  columns : ∀ name m, s.model? name = some m → m.columns.Nodup

variable {s : AppSchema} {m m' : Model} {name : String}

theorem Separate.withoutModel (h : s.Separate) : (s.withoutModel name).Separate := by
  have hsub :
      ∀ name' m', (s.withoutModel name).model? name' = some m' → s.model? name' = some m' := by
    intro name' m' hm'
    rw [model?_withoutModel] at hm'
    split at hm'
    · cases hm'
    · exact hm'
  exact ⟨fun n₁ m₁ n₂ m₂ h₁ h₂ => h.apart n₁ m₁ n₂ m₂ (hsub _ _ h₁) (hsub _ _ h₂),
    fun n₁ m₁ h₁ => h.columns n₁ m₁ (hsub _ _ h₁)⟩

/-- Any model can be set beside the others. -/
theorem catalog_eq_put (hs : s.models.Ordered) (hsep : s.Separate) (hm : s.model? name = some m) :
    s.catalog = (s.withoutModel name).catalog.put m.table m.tableColumns m.indexMap := by
  refine Catalog.ofModels_eq_put hs.nodup_names (fun x hx y hy hne => ?_) hm
  exact hsep.apart x.1 x.2 y.1 y.2 (Named.get?_of_mem hs.nodup_names hx)
    (Named.get?_of_mem hs.nodup_names hy) hne

/-- A model fits among the others exactly if it keeps apart from each of them. -/
theorem fits_withoutModel (hs : s.models.Ordered) :
    (s.withoutModel name).catalog.Fits m.table m.indexMap ↔
      ∀ name' m', s.model? name' = some m' → name ≠ name' → m'.Apart m := by
  have hmem : ∀ entry, entry ∈ (s.withoutModel name).models ↔
      s.model? entry.1 = some entry.2 ∧ name ≠ entry.1 := by
    intro entry
    rw [withoutModel, Named.erase, List.mem_filter, decide_eq_true_eq]
    constructor
    · rintro ⟨hentry, hne⟩
      exact ⟨Named.get?_of_mem hs.nodup_names hentry, Ne.symm hne⟩
    · rintro ⟨hentry, hne⟩
      exact ⟨Named.mem_of_get? hentry, Ne.symm hne⟩
  constructor
  · intro hfits name' m' hm' hne
    have hin := (hmem (name', m')).mpr ⟨hm', hne⟩
    refine ⟨Catalog.tables_ofModels_eq_none.mp hfits.table _ hin, fun i hi hi' => ?_⟩
    exact Catalog.indexes_ofModels_eq_none.mp
      (hfits.indexes i (Catalog.indexMap_ne_none.mpr hi')) _ hin hi
  · intro hapart
    refine ⟨⟨Catalog.tables_ofModels_eq_none.mpr ?_, fun i hi =>
      Catalog.indexes_ofModels_eq_none.mpr ?_⟩, Catalog.sound_ofModels⟩
    · intro entry hentry
      obtain ⟨hm', hne⟩ := (hmem entry).mp hentry
      exact (hapart _ _ hm' hne).1
    · intro entry hentry hi'
      obtain ⟨hm', hne⟩ := (hmem entry).mp hentry
      exact (hapart _ _ hm' hne).2 hi' (Catalog.indexMap_ne_none.mp hi)

def HasTable (s : AppSchema) (table : String) : Prop :=
  ∃ name m, s.model? name = some m ∧ m.table = table

theorem tables_catalog_eq_none {table : String} (hs : s.models.Ordered) :
    s.catalog.tables table = none ↔ ¬s.HasTable table := by
  rw [catalog, Catalog.tables_ofModels_eq_none]
  constructor
  · rintro h ⟨name, m, hm, htable⟩
    exact h (name, m) (Named.mem_of_get? hm) htable
  · intro h entry hentry htable
    exact h ⟨entry.1, entry.2, Named.get?_of_mem hs.nodup_names hentry, htable⟩

/-- In the catalog of a state each model has its columns. -/
theorem tables_catalog (hs : s.models.Ordered) (hsep : s.Separate) (hm : s.model? name = some m) :
    s.catalog.tables m.table = some m.tableColumns := by
  rw [catalog_eq_put hs hsep hm, Catalog.tables_put_self]

theorem indexes_catalog {index : String} {covered : List String} (hs : s.models.Ordered)
    (hsep : s.Separate) (hm : s.model? name = some m) (hindex : m.indexMap index = some covered) :
    s.catalog.indexes index = some ⟨m.table, covered⟩ := by
  rw [catalog_eq_put hs hsep hm, Catalog.indexes_put_of_some hindex]

theorem indexes_catalog_eq_none {index : String} (hs : s.models.Ordered) :
    s.catalog.indexes index = none ↔ ∀ name m, s.model? name = some m →
      m.indexMap index = none := by
  rw [catalog, Catalog.indexes_ofModels_eq_none]
  constructor
  · intro h name m hm
    exact Catalog.indexMap_of_not_mem (h (name, m) (Named.mem_of_get? hm))
  · rintro h ⟨name, m⟩ hentry
    have hnone := h name m (Named.get?_of_mem hs.nodup_names hentry)
    exact fun hindex => Catalog.indexMap_ne_none.mpr hindex hnone

theorem withModel_withoutModel : (s.withModel m).withoutModel m.name = s.withoutModel m.name := by
  unfold withModel withoutModel
  rw [Named.erase_insert]

/-- A model that fits beside the others keeps the state separate. -/
theorem Separate.withModel (hs : s.models.Ordered) (hsep : s.Separate)
    (hfits : (s.withoutModel m.name).catalog.Fits m.table m.indexMap) (hcolumns : m.columns.Nodup) :
    (s.withModel m).Separate := by
  have hapart := (fits_withoutModel hs).mp hfits
  constructor
  · intro n₁ m₁ n₂ m₂ h₁ h₂ hne
    rw [model?_withModel] at h₁ h₂
    split at h₁
    · next hn₁ =>
        cases h₁
        rw [if_neg (hn₁ ▸ hne)] at h₂
        exact (hapart n₂ m₂ h₂ (hn₁ ▸ hne)).symm
    · next hn₁ =>
        split at h₂
        · cases h₂
          exact hapart n₁ m₁ h₁ hn₁
        · exact hsep.apart n₁ m₁ n₂ m₂ h₁ h₂ hne
  · intro n₁ m₁ h₁
    rw [model?_withModel] at h₁
    split at h₁
    · cases h₁
      exact hcolumns
    · exact hsep.columns n₁ m₁ h₁

end AppSchema

/-! ### Catalogs that are alike -/

namespace Catalog

/-- Two catalogs have the same tables and indexes, the columns of the tables being related. -/
structure Like (R : List Column → List Column → Prop) (db db' : Catalog) : Prop where
  tables : ∀ table, Option.Rel R (db.tables table) (db'.tables table)
  indexes : db.indexes = db'.indexes

/-- Only one table has changed. -/
def SameBut (table : String) (db db' : Catalog) : Prop :=
  ∀ other, other ≠ table → db'.tables other = db.tables other

/-- A relation that a database keeps while it changes columns. Equality is one, and so is equality
up to the order of columns. -/
structure Likeness (R : List Column → List Column → Prop) : Prop where
  refl : ∀ columns, R columns columns
  perm : ∀ {columns columns'}, R columns columns' → columns.Perm columns'
  append : ∀ {columns columns'} more, R columns columns' → R (columns ++ more) (columns' ++ more)
  filter : ∀ {columns columns'} keep, R columns columns' →
    R (columns.filter keep) (columns'.filter keep)

theorem likeness_eq : Likeness Eq :=
  ⟨fun _ => rfl, fun h => h ▸ List.Perm.refl _, fun _ h => h ▸ rfl, fun _ h => h ▸ rfl⟩

theorem likeness_perm : Likeness List.Perm :=
  ⟨List.Perm.refl, id, fun more h => h.append_right more, fun keep h => h.filter keep⟩

variable {R : List Column → List Column → Prop} {rest rest' db db' : Catalog} {table : String}
  {columns columns' : List Column} {indexes : IndexMap}

theorem Like.refl (hR : Likeness R) (db : Catalog) : db.Like R db := by
  refine ⟨fun table => ?_, rfl⟩
  cases db.tables table with
  | none => exact Option.Rel.none
  | some columns => exact Option.Rel.some (hR.refl columns)

theorem Like.eq (h : db.Like Eq db') : db = db' := by
  ext1
  · funext table
    have htable := h.tables table
    generalize db.tables table = found at htable
    generalize db'.tables table = found' at htable
    cases htable with
    | none => rfl
    | some h => rw [h]
  · exact h.indexes

theorem Like.tables_eq_none (h : db.Like R db') :
    db.tables table = none ↔ db'.tables table = none := by
  have htable := h.tables table
  generalize db.tables table = found at htable
  generalize db'.tables table = found' at htable
  cases htable <;> simp

theorem Like.fits (h : db.Like R db') : db.Fits table indexes ↔ db'.Fits table indexes := by
  constructor
  · intro hfits
    exact ⟨⟨h.tables_eq_none.mp hfits.table, h.indexes ▸ hfits.indexes⟩,
      fun i index hi => mt h.tables_eq_none.mpr (hfits.sound i index (h.indexes ▸ hi))⟩
  · intro hfits
    exact ⟨⟨h.tables_eq_none.mpr hfits.table, h.indexes ▸ hfits.indexes⟩,
      fun i index hi => mt h.tables_eq_none.mp (hfits.sound i index (h.indexes ▸ hi))⟩

/-- Alike catalogs stay alike when a table with like columns is put into both. -/
theorem Like.put (h : rest.Like R rest') (hcolumns : R columns columns') :
    (rest.put table columns indexes).Like R (rest'.put table columns' indexes) := by
  constructor
  · intro other
    by_cases hother : other = table
    · rw [hother, tables_put_self, tables_put_self]
      exact Option.Rel.some hcolumns
    · rw [tables_put_ne hother, tables_put_ne hother]
      exact h.tables other
  · simp only [Catalog.put, h.indexes]

/-- A catalog that is like one with a table beside the rest has that table beside a rest of its
own. -/
theorem Like.exists_rest (h : db.Like R (rest.put table columns indexes))
    (hfits : rest.Fits table indexes) :
    ∃ (rest' : Catalog) (columns' : List Column), db = rest'.put table columns' indexes ∧
      R columns' columns ∧
      rest'.Like R rest := by
  have htable := h.tables table
  rw [tables_put_self] at htable
  cases hfound : db.tables table with
  | none =>
      rw [hfound] at htable
      cases htable
  | some columns' =>
      rw [hfound] at htable
      refine ⟨⟨fun t => if t = table then none else db.tables t, rest.indexes⟩, columns',
        ?_, ?_, ?_⟩
      · ext1
        · funext t
          show _ = if t = table then _ else if t = table then _ else _
          by_cases ht : t = table
          · rw [if_pos ht, ht, hfound]
          · rw [if_neg ht, if_neg ht]
        · exact h.indexes
      · cases htable with
        | some hcolumns => exact hcolumns
      · refine ⟨fun t => ?_, rfl⟩
        show Option.Rel R (if t = table then _ else _) _
        by_cases ht : t = table
        · rw [if_pos ht, ht, hfits.table]
          exact Option.Rel.none
        · rw [if_neg ht]
          have hother := h.tables t
          rwa [tables_put_ne ht] at hother

end Catalog

namespace AppSchema

/-! ### Tables that hold a state -/

variable {R : List Column → List Column → Prop} {s : AppSchema} {m m' : Model} {name : String}
  {db db' rest : Catalog} {columns : List Column}

/-- A database holds a state: it could, and it has the tables and indexes of the state. -/
structure Held (R : List Column → List Column → Prop) (s : AppSchema) (db : Catalog) : Prop where
  separate : s.Separate
  like : db.Like R s.catalog

/-- A database has exactly the tables, columns and indexes of a state, up to the order of
columns. -/
abbrev HeldBy (s : AppSchema) (db : Catalog) : Prop := s.Held List.Perm db

/-- A state is held by its own catalog. -/
theorem heldBy_of_eq (hsep : s.Separate) (h : db = s.catalog) : s.HeldBy db :=
  ⟨hsep, h ▸ Catalog.Like.refl Catalog.likeness_perm _⟩

/-- The table of a model beside the others. -/
theorem Held.exists_rest (h : s.Held R db) (hs : s.models.Ordered) (hm : s.model? m.name = some m) :
    ∃ (rest : Catalog) (columns : List Column), db = rest.put m.table columns m.indexMap ∧
      R columns m.tableColumns ∧ rest.Like R (s.withoutModel m.name).catalog ∧
      rest.Fits m.table m.indexMap := by
  have hfits : (s.withoutModel m.name).catalog.Fits m.table m.indexMap :=
    (fits_withoutModel hs).mpr fun name' m' hm' hne => h.separate.apart _ _ _ _ hm' hm hne.symm
  obtain ⟨rest, columns, hdb, hcolumns, hlike⟩ :=
    (catalog_eq_put hs h.separate hm ▸ h.like).exists_rest hfits
  exact ⟨rest, columns, hdb, hcolumns, hlike, hlike.fits.mpr hfits⟩

/-- A table that fits beside the others. -/
theorem Held.withModel (hs : s.models.Ordered) (hsep : s.Separate)
    (hlike : rest.Like R (s.withoutModel m.name).catalog) (hfits : rest.Fits m.table m.indexMap)
    (hcolumns : R columns m.tableColumns) (hnames : m.columns.Nodup) :
    (s.withModel m).Held R (rest.put m.table columns m.indexMap) := by
  have hsep' := hsep.withModel hs (hlike.fits.mp hfits) hnames
  refine ⟨hsep', ?_⟩
  rw [catalog_eq_put hs.insert hsep' Named.get?_insert_self, withModel_withoutModel]
  exact hlike.put hcolumns

theorem names_tableColumns : m.tableColumns.map (·.name) = m.columns := by
  rw [Model.tableColumns, Model.columns, List.map_map]
  rfl

/-- A table that is changed beside the others, which stay as they are. -/
theorem Held.change (hR : Catalog.Likeness R) (h : s.Held R db) (hs : s.models.Ordered)
    (hm : s.model? m.name = some m) (hname : m'.name = m.name) (htable : m'.table = m.table)
    (hstep : ∀ (rest : Catalog) (columns : List Column), rest.Fits m.table m.indexMap →
      R columns m.tableColumns →
      (columns.map (·.name)).Nodup → db = rest.put m.table columns m.indexMap →
      rest.Fits m'.table m'.indexMap ∧ m'.columns.Nodup ∧
        ∃ columns', R columns' m'.tableColumns ∧ db' = rest.put m'.table columns' m'.indexMap) :
    (s.withModel m').Held R db' ∧ db.SameBut m.table db' := by
  obtain ⟨rest, columns, hdb, hcolumns, hlike, hfits⟩ := h.exists_rest hs hm
  have hnodup : (columns.map (·.name)).Nodup := by
    rw [((hR.perm hcolumns).map _).nodup_iff, names_tableColumns]
    exact h.separate.columns _ _ hm
  obtain ⟨hfits', hnames', columns', hcolumns', rfl⟩ := hstep rest columns hfits hcolumns hnodup hdb
  refine ⟨Held.withModel hs h.separate (hname ▸ hlike) hfits' hcolumns' hnames', ?_⟩
  intro other hother
  rw [hdb, Catalog.tables_put_ne hother, Catalog.tables_put_ne (htable ▸ hother)]

end AppSchema

end SchemaHistory
