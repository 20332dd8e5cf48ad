import SchemaHistory.Proofs.Locality
import SchemaHistory.Proofs.RowEffects

/-!
# Catching up

A database may have had some operations already that a list brings only later, since they were
recorded before others of the list were there. It catches up by having the others, the late ones,
each between the states that the list has led to there and not between those that the database is
in. `CatchesUp` is a run of this kind, and `Forerun` is what holds in the midst of it: the database
holds a state that has everything of the list so far, and beyond that what the recorded operations
ahead have made.

Where every late operation passes the recorded ones behind it, this is kept: by a recorded operation
(`Forerun.recorded`), by a late one (`Forerun.late`) and so by a run (`Forerun.catchesUp`), which
keeps what no late operation removes. At its end the database holds the state of the whole list
(`Forerun.heldBy`).
-/

namespace SchemaHistory

open AppSchema

/-- A late operation passes one that was carried out before it, though it stands behind it: neither
goes by what the other changes, and where the other has changed the model, the table is not built
anew. -/
def Operation.Passes (capabilities : Capabilities) (late other : Operation) : Prop :=
  late.model = other.model → ∀ part,
    (other.changes part = true → late.InPlace capabilities ∧ late.concerns part = false) ∧
    (late.changes part = true → other.concerns part = false)

/-- A database that has had the recorded operations of a list has the late ones as well. `ahead` are
the recorded operations that the list has still to bring, and the states are those of the list. -/
inductive CatchesUp (backend : Backend Database) (late : List Operation) :
    List Operation → AppSchema → Database → AppSchema → Database → Prop where
  | done (s : AppSchema) (db : Database) : CatchesUp backend late [] s db s db
  | marked {ahead : List Operation} {s t : AppSchema} {db db' : Database} (migration : Migration) :
      CatchesUp backend late ahead (s.recorded migration) db t db' →
      CatchesUp backend late ahead s db t db'
  | recorded {operation : Operation} {ahead : List Operation} {s next t : AppSchema}
      {db db' : Database} : operation.apply s = .ok () next →
      CatchesUp backend late ahead next db t db' →
      CatchesUp backend late (operation :: ahead) s db t db'
  | late {operation : Operation} {ahead : List Operation} {s next t : AppSchema}
      {db between db' : Database} : operation ∈ late →
      (∀ other ∈ ahead, operation.Passes backend.dialect.capabilities other) →
      operation.apply s = .ok () next → operation.forward backend ⟨s, next⟩ db = .ok () between →
      CatchesUp backend late ahead next between t db' → CatchesUp backend late ahead s db t db'

/-- The database holds a state that is before the one of a list: it has all that the list has
brought and, of each part, what the recorded operations ahead leave of it. -/
structure Forerun (ahead : List Operation) (s u : AppSchema) (db : Database) : Prop where
  app_eq : u.app = s.app
  sound : u.Sound
  keyed : u.Keyed
  leaves : ∀ name (part : Part), Operation.Leaves s.app (ahead.filter (·.model = name)) part
    (s.model? name) (u.model? name)
  held : u.HeldBy db.catalog
  rows : db.Sound

namespace Operation

variable {capabilities : Capabilities} {operation late other : Operation} {part : Part}
  {app : String}
  {ahead : List Operation} {r r' a : Option Model}

/-- What a late operation changes, one that it passes does not. -/
theorem Passes.not_changes (h : late.Passes capabilities other) (hmodel : late.model = other.model)
    (hchanges : late.changes part = true) : other.changes part = false := by
  by_contra hother
  have hnot := (h hmodel part).2 hchanges
  rw [concerns_of_changes (Bool.not_eq_false _ ▸ hother)] at hnot
  cases hnot

/-- What operations leave of a part that a late one goes by is as it was before them. -/
theorem Leaves.same_of_passes (h : Leaves app ahead part r a)
    (hpasses : ∀ other ∈ ahead, operation.model = other.model ∧ operation.Passes capabilities other)
    (hconcerns : operation.concerns part = true) : part.Same r a := by
  refine h.same fun other hother => ?_
  obtain ⟨hmodel, hpass⟩ := hpasses other hother
  by_contra hchanges
  have hnot := ((hpass hmodel part).1 (Bool.not_eq_false _ ▸ hchanges)).2
  rw [hconcerns] at hnot
  cases hnot

/-- What a late operation removes no index is over, neither one that was there nor one that was made
by the operations ahead. -/
theorem Leaves.not_isIndexed {name field : String} {names : List String} {m : Model} (hm : m.Sound)
    (h : (removeFields name names).Edits app r r')
    (hleaves : ∀ part, Leaves app ahead part r (some m))
    (hpasses : ∀ other ∈ ahead,
      name = other.model ∧ (removeFields name names).Passes capabilities other)
    (hfield : field ∈ names) : m.isIndexed field = false := by
  rw [Model.isIndexed, List.any_eq_false]
  rintro ⟨index, covered⟩ hindex hcovers
  have hget : m.indexes.get? index = some covered := Named.get?_of_mem hm.indexes.nodup_names hindex
  cases hleaves (.index index) with
  | asBefore _ hsame =>
      cases h with
      | @removeFields _ old _ _ _ _ hfree =>
          have hold : old.indexes.get? index = some covered := Eq.trans hsame hget
          have hnot := hfree field hfield
          rw [Model.isIndexed, List.any_eq_false] at hnot
          exact hnot (index, covered) (Named.mem_of_get? hold) hcovers
  | @asMade front back last b b' hsplit hlast _ hmade hsame =>
      have heq := hmade.eq_addIndex hlast (Eq.trans hsame hget)
      obtain ⟨hmodel, hpass⟩ :=
        hpasses last (by rw [hsplit]; exact List.mem_append_right _ List.mem_cons_self)
      have hnot := (hpass hmodel (.field field)).2 (by simpa [Operation.changes] using hfield)
      rw [heq] at hnot
      simp only [concerns, changes, Bool.false_or] at hnot
      exact absurd hcovers (by simp only [hnot, Bool.false_eq_true, not_false_eq_true])

/-- A late operation can be carried out on what the operations ahead leave. -/
theorem Edits.exists_of_leaves (h : operation.Edits app r r') (ha : ∀ m, a = some m → m.Sound)
    (hleaves : ∀ part, Leaves app ahead part r a)
    (hpasses : ∀ other ∈ ahead, operation.model = other.model ∧
      operation.Passes capabilities other) :
    ∃ b, operation.Edits app a b := by
  refine h.exists_of_same (fun part => (hleaves part).same_of_passes hpasses) ?_
  rintro name names m rfl rfl field hfield
  exact Leaves.not_isIndexed (ha m rfl) h hleaves hpasses hfield

end Operation

/-! ### One operation of the list -/

theorem AppSchema.Sound.withEntry {s : AppSchema} {name : String} {r : Option Model} (hs : s.Sound)
    (hr : ∀ m, r = some m → m.Sound) : (s.withEntry name r).Sound := by
  cases r with
  | some m => exact hs.withModel (hr m rfl)
  | none => exact hs.withoutModel

/-- What states have in common in all parts is kept. -/
theorem AppSchema.Alike.retained {s t : AppSchema} {lost : String → Part → Prop} {db : Database}
    (h : s.Alike t) (hs : s.Sound) (ht : t.Sound) : s.Retained lost t db db := by
  intro name m hm _
  obtain ⟨m', hm', halike⟩ := h.exists_model hs ht hm
  exact ⟨m', hm', halike.table, fun field declared _ hfield => (halike.field? field).trans hfield,
    fun index covered _ hindex => halike.indexes ▸ hindex,
    List.forall₂_same.mpr fun _ _ _ _ _ _ => rfl⟩

namespace Forerun

variable {compares : Comparison → Value → Value → Truth} {dialect : Dialect} {now : DateTime}
  {operation : Operation} {ahead pending : List Operation} {s next t u : AppSchema}
  {db between db' : Database}

/-- A recorded operation that the list brings was there before. -/
theorem recorded (h : Forerun (operation :: ahead) s u db) (hs : s.Sound)
    (happly : operation.apply s = .ok () next) : Forerun ahead next u db where
  app_eq := h.app_eq.trans (app_eq_of_apply happly).symm
  sound := h.sound
  keyed := h.keyed
  held := h.held
  rows := h.rows
  leaves name part := by
    have hleaves := h.leaves name part
    obtain ⟨r, hedit, rfl⟩ := (Operation.apply_eq_ok_iff hs).mp happly
    rw [app_withEntry, model?_withEntry (hedit.name_eq fun m => hs.name_eq _ m)]
    by_cases hname : operation.model = name
    · subst hname
      rw [List.filter_cons_of_pos (by simp)] at hleaves
      rw [if_pos rfl]
      exact hleaves.tail hedit
    · rw [List.filter_cons_of_neg (by simpa using hname)] at hleaves
      rwa [if_neg hname]

/-- Another state that is alike will do. -/
theorem of_alike {v : AppSchema} (h : Forerun ahead s u db) (halike : u.Alike v) (hv : v.Sound)
    (hk : v.Keyed) : Forerun ahead s v db where
  app_eq := halike.app_eq.trans h.app_eq
  sound := hv
  keyed := hk
  leaves name part := (h.leaves name part).trans (halike.same name part)
  held := halike.heldBy h.sound hv h.held
  rows := h.rows

/-- Where a model is as the list has it, the state may as well have that very model. -/
theorem exists_alike (h : Forerun ahead s u db) (hs : s.Sound) (hk : s.Keyed) {name : String}
    (hsame : ∀ part : Part, part.Same (s.model? name) (u.model? name)) :
    ∃ v, Forerun ahead s v db ∧ u.Alike v ∧ v.model? name = s.model? name := by
  have hname : ∀ m, s.model? name = some m → m.name = name := fun m => hs.name_eq name m
  have hentry : ∀ other, (u.withEntry name (s.model? name)).model? other
      = if name = other then s.model? name else u.model? other := fun _ => model?_withEntry hname
  have halike : u.Alike (u.withEntry name (s.model? name)) := by
    refine ⟨app_withEntry, fun other part => ?_⟩
    rw [hentry]
    split
    · next heq => exact heq ▸ (hsame part).symm
    · exact .refl _
  refine ⟨_, h.of_alike halike (h.sound.withEntry (hs.model name)) fun other m hm => ?_, halike, ?_⟩
  · rw [hentry] at hm
    rw [app_withEntry, h.app_eq]
    split at hm
    · exact hk name m hm
    · exact h.app_eq ▸ h.keyed other m hm
  · rw [hentry, if_pos rfl]

variable (compares now) in
/-- A late operation does the same from a state that the database holds. -/
theorem exists_forward_eq (h : Forerun ahead s u db) (hs : s.Sound) (hk : s.Keyed)
    (hpasses : ∀ other ∈ ahead, operation.Passes dialect.capabilities other)
    (happly : operation.apply s = .ok () next) :
    ∃ v, Forerun ahead s v db ∧ u.Alike v ∧
      ∀ b, operation.Edits s.app (v.model? operation.model) b →
        operation.forward (Database.backend compares dialect now)
          ⟨v, v.withEntry operation.model b⟩ db
            = operation.forward (Database.backend compares dialect now) ⟨s, next⟩ db := by
  obtain ⟨r, hedit, rfl⟩ := (Operation.apply_eq_ok_iff hs).mp happly
  have hr := hedit.name_eq fun m => hs.name_eq _ m
  have hnext : (s.withEntry operation.model r).model? operation.model = r := by
    rw [model?_withEntry hr, if_pos rfl]
  have hbehind : ∀ other ∈ ahead.filter (·.model = operation.model),
      operation.model = other.model ∧ operation.Passes dialect.capabilities other := by
    intro other hother
    obtain ⟨hmem, hmodel⟩ := List.mem_filter.mp hother
    exact ⟨(of_decide_eq_true hmodel).symm, hpasses other hmem⟩
  by_cases hplace : operation.InPlace dialect.capabilities
  · refine ⟨u, h, .refl u, fun b hb => ?_⟩
    have hname := hb.name_eq fun m => h.sound.name_eq _ m
    have hfirst : operation.Edits s.app (s.model? operation.model)
        ((s.withEntry operation.model r).model? operation.model) := by rwa [hnext]
    have hsecond : operation.Edits s.app (u.model? operation.model)
        ((u.withEntry operation.model b).model? operation.model) := by
      rwa [model?_withEntry hname, if_pos rfl]
    exact (Operation.forward_eq hplace hfirst hsecond fun part hconcerns =>
      (h.leaves _ part).same_of_passes hbehind hconcerns).symm
  · -- nothing ahead changes the model, for its table is built anew
    obtain ⟨v, hv, halike, hmodel⟩ := h.exists_alike hs hk fun part => (h.leaves _ part).same
      fun other hother => by
        obtain ⟨hname, hpass⟩ := hbehind other hother
        by_contra hchanges
        exact hplace ((hpass hname part).1 (Bool.not_eq_false _ ▸ hchanges)).1
    refine ⟨v, hv, halike, fun b hb => ?_⟩
    have hname := hb.name_eq fun m => hv.sound.name_eq _ m
    obtain rfl := (hmodel ▸ hb).unique hedit
    have hforward : operation.forward (Database.backend compares dialect now)
        ⟨v, v.withEntry operation.model b⟩
        = operation.forward (Database.backend compares dialect now)
          ⟨s, s.withEntry operation.model b⟩ := by
      refine Operation.forward_congr hv.app_eq ?_ hmodel ?_
      · rw [app_withEntry, app_withEntry, hv.app_eq]
      · rw [hnext, model?_withEntry hname, if_pos rfl]
    rw [hforward]

/-- A late operation that passes those ahead brings the database no further than the list. -/
theorem late (h : Forerun ahead s u db) (hs : s.Sound) (hk : s.Keyed)
    (hfields : operation.FieldsDiffer)
    (hpasses : ∀ other ∈ ahead, operation.Passes dialect.capabilities other)
    (happly : operation.apply s = .ok () next)
    (hforward : operation.forward (Database.backend compares dialect now) ⟨s, next⟩ db
      = .ok () between) :
    ∃ v, Forerun ahead next v between ∧
      u.Retained (fun name part => name = operation.model ∧ operation.removes part = true) v db
        between := by
  obtain ⟨v, hv, halike, hsame⟩ := h.exists_forward_eq compares now hs hk hpasses happly
  obtain ⟨r, hedit, rfl⟩ := (Operation.apply_eq_ok_iff hs).mp happly
  obtain ⟨b, hb⟩ := hedit.exists_of_leaves (fun m => hv.sound.model _ m) (hv.leaves _)
    fun other hother => by
      obtain ⟨hmem, hmodel⟩ := List.mem_filter.mp hother
      exact ⟨(of_decide_eq_true hmodel).symm, hpasses other hmem⟩
  have happly' : operation.apply v = .ok () (v.withEntry operation.model b) :=
    (Operation.apply_eq_ok_iff hv.sound).mpr ⟨b, hv.app_eq ▸ hb, rfl⟩
  have hstep := Operation.applies_of_ok hv.sound happly'
  have hsound := hstep.sound hv.sound hfields
  obtain ⟨hheld, hrows, hretained⟩ := Operation.forward_rows
    (Database.keeps_backend compares dialect now) hv.sound hv.keyed hstep hsound hv.held hv.rows
    ((hsame b hb).trans hforward)
  refine ⟨_, ⟨?_, hsound, hv.keyed.apply hv.sound happly', fun name part => ?_, hheld, hrows⟩,
    (halike.retained h.sound hv.sound).trans hretained⟩
  · rw [app_withEntry, app_withEntry, hv.app_eq]
  · have hleaves := hv.leaves name part
    rw [app_withEntry, model?_withEntry (hedit.name_eq fun m => hs.name_eq _ m),
      model?_withEntry (hb.name_eq fun m => hv.sound.name_eq _ m)]
    by_cases hname : operation.model = name
    · subst hname
      rw [if_pos rfl, if_pos rfl]
      refine hleaves.edit hedit hb fun hchanges other hother => ?_
      obtain ⟨hmem, hmodel⟩ := List.mem_filter.mp hother
      exact (hpasses other hmem).not_changes (of_decide_eq_true hmodel).symm hchanges
    · rwa [if_neg hname, if_neg hname]

/-! ### All of them -/

/-- A run of the late operations keeps all that they do not remove, and leads to the state of the
list. -/
theorem catchesUp (h : Forerun ahead s u db) (hs : s.Sound) (hk : s.Keyed)
    (hahead : ∀ operation ∈ ahead, operation.FieldsDiffer)
    (hpending : ∀ operation ∈ pending, operation.FieldsDiffer)
    (hrun : CatchesUp (Database.backend compares dialect now) pending ahead s db t db') :
    t.Sound ∧ ∃ v, Forerun [] t v db' ∧ u.Retained (fun name part => ∃ operation ∈ pending,
      name = operation.model ∧ operation.removes part = true) v db db' := by
  induction hrun generalizing u with
  | done s db => exact ⟨hs, u, h, .refl u db⟩
  | marked migration _ ih =>
      exact ih ⟨h.app_eq, h.sound, h.keyed, h.leaves, h.held, h.rows⟩ hs.recorded hk hahead
  | recorded happly _ ih =>
      obtain ⟨hfirst, hahead⟩ := List.forall_mem_cons.mp hahead
      exact ih (h.recorded hs happly) ((Operation.applies_of_ok hs happly).sound hs hfirst)
        (hk.apply hs happly) hahead
  | late hmem hpasses happly hforward _ ih =>
      have hfields := hpending _ hmem
      obtain ⟨v, hv, hretained⟩ := h.late hs hk hfields hpasses happly hforward
      obtain ⟨ht, w, hw, hretained'⟩ := ih hv
        ((Operation.applies_of_ok hs happly).sound hs hfields) (hk.apply hs happly) hahead
      exact ⟨ht, w, hw, (hretained.mono fun _ _ hlost => ⟨_, hmem, hlost⟩).trans hretained'⟩

/-- At the end the database holds the state of the list. -/
theorem heldBy (h : Forerun [] s u db) (hs : s.Sound) : u.Alike s ∧ s.HeldBy db.catalog := by
  have halike : u.Alike s := by
    refine ⟨h.app_eq.symm, fun name part => ?_⟩
    have hsame := (h.leaves name part).same nofun
    exact hsame.symm
  exact ⟨halike, halike.heldBy h.sound hs h.held⟩

end Forerun

end SchemaHistory
