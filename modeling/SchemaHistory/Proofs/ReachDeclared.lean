import SchemaHistory.Proofs.ModelDiff
import SchemaHistory.Proofs.RoundTrip

/-!
# Reaching the declared models

`AppSchema.diff` lists operations that lead a state to the models declared for it, one model after
the other, and then delete what is not declared. They succeed where the keys fit, and then nothing
is left to make and the report of altered definitions says what it said before, except of new fields
whose definition is not equal to itself (`AppSchema.diff_reaches_declared`, `altered_ledTo_eq_iff`).

* `forM_changesFor_iff` takes one declaration, `forM_diff_iff` all of them;
* `diff_ledTo` finds nothing to do in the state that they lead to;
* `reportOf_ledTo` follows one entry of the report.

`new_score_reported` is the field that is reported only once it is there: its default is NaN.
-/

namespace SchemaHistory

namespace AppSchema

/-! ### One declared model after the other -/

/-- What becomes of a declared model in a state that is led to it. -/
def reached (s : AppSchema) (declared : Model) : Model :=
  match s.model? declared.name with
  | some prior => prior.ledTo declared
  | none => declared

variable {s t u : AppSchema} {m prior : Model} {declared : List Model} {name : String}

theorem reached_of_some (h : s.model? m.name = some prior) : s.reached m = prior.ledTo m := by
  rw [reached, h]

theorem reached_of_none (h : s.model? m.name = none) : s.reached m = m := by
  rw [reached, h]

theorem Sound.name_reached (hs : s.Sound) : (s.reached m).name = m.name := by
  cases hm : s.model? m.name with
  | none => rw [reached_of_none hm]
  | some prior =>
      rw [reached_of_some hm]
      have hname := hs.name_eq _ _ hm
      exact hname

/-- A declaration that is sound is reached as a sound model. -/
theorem Sound.reached (hs : s.Sound) (hm : m.Sound) : (s.reached m).Sound := by
  cases hmodel : s.model? m.name with
  | none => rwa [reached_of_none hmodel]
  | some prior =>
      rw [reached_of_some hmodel]
      exact (hs.model _ _ hmodel).ledTo hm

theorem model_of_mem_changesFor {operation : Operation} (h : operation ∈ s.changesFor m) :
    operation.model = m.name := by
  unfold changesFor at h
  split at h
  · simp only [Model.changes, List.mem_append, List.mem_map, Prod.exists] at h
    rcases h with ((⟨_, _, _, rfl⟩ | h) | h) | ⟨_, _, _, rfl⟩
    · rfl
    · split at h
      · cases h
      · rw [List.mem_singleton.mp h]
        rfl
    · split at h
      · cases h
      · rw [List.mem_singleton.mp h]
        rfl
    · rfl
  · simp only [Model.creation, List.mem_cons, List.mem_map, Prod.exists] at h
    rcases h with rfl | ⟨_, _, _, rfl⟩
    · rfl
    · rfl

theorem fieldsDiffer_of_mem_changesFor {operation : Operation} (hm : m.Sound)
    (h : operation ∈ s.changesFor m) : operation.FieldsDiffer := by
  unfold changesFor at h
  split at h
  · simp only [Model.changes, List.mem_append, List.mem_map, Prod.exists] at h
    rcases h with ((⟨_, _, _, rfl⟩ | h) | h) | ⟨_, _, _, rfl⟩
    · trivial
    · split at h
      · cases h
      · rw [List.mem_singleton.mp h]
        trivial
    · split at h
      · cases h
      · rw [List.mem_singleton.mp h]
        exact hm.nodup_fieldsNotIn
    · trivial
  · simp only [Model.creation, List.mem_cons, List.mem_map, Prod.exists] at h
    rcases h with rfl | ⟨_, _, _, rfl⟩
    · exact hm.fields
    · trivial

/-- The operations for one declared model, carried out where nothing has changed for its name
yet. -/
theorem forM_changesFor_iff (hs : s.Sound) (hk : s.Keyed) (hm : m.Sound) (hmk : m.Keyed s.app)
    (hu : u.Sound) (happ : u.app = s.app) (hsame : u.model? m.name = s.model? m.name) :
    (s.changesFor m).forM Operation.apply u = .ok () t ↔
      (∀ prior, s.model? m.name = some prior → prior.KeysFit m) ∧
        t = u.withModel (s.reached m) := by
  rw [Operation.forM_apply_iff hu (fun _ => model_of_mem_changesFor)
    (fun _ => fieldsDiffer_of_mem_changesFor hm), happ, hsame]
  cases hmodel : s.model? m.name with
  | none =>
      have hcreation : s.changesFor m = m.creation := by rw [changesFor, hmodel]
      rw [hcreation, reached_of_none hmodel]
      simp only [Model.editsAll_creation_iff hm hmk]
      constructor
      · rintro ⟨r, rfl, rfl⟩
        exact ⟨nofun, rfl⟩
      · rintro ⟨-, rfl⟩
        exact ⟨_, rfl, rfl⟩
  | some prior =>
      have hchanges : s.changesFor m = prior.changes m := by rw [changesFor, hmodel]
      rw [hchanges, reached_of_some hmodel]
      simp only [Model.editsAll_changes_iff (hs.model _ _ hmodel) (hk _ _ hmodel) hm hmk]
      constructor
      · rintro ⟨r, ⟨hfit, rfl⟩, rfl⟩
        exact ⟨fun _ h => Option.some.inj h ▸ hfit, rfl⟩
      · rintro ⟨hfit, rfl⟩
        exact ⟨_, ⟨hfit prior rfl, rfl⟩, rfl⟩

/-- The state in which models are in the places of their names. -/
def withModels (u : AppSchema) (models : List Model) : AppSchema := models.foldl withModel u

/-- What is reached for one model leaves the others as they were, since it has a name of its own. -/
theorem model?_withReached_of_not_mem (hs : s.Sound) (hnot : m.name ∉ declared.map (·.name))
    (hsame : ∀ other ∈ declared, u.model? other.name = s.model? other.name) :
    ∀ other ∈ declared, (u.withModel (s.reached m)).model? other.name = s.model? other.name := by
  intro other hother
  have hne : m.name ≠ other.name := fun heq =>
    hnot (List.mem_map.mpr ⟨other, hother, heq.symm⟩)
  rw [model?_withModel, hs.name_reached, if_neg hne]
  exact hsame other hother

/-- All changes for the declarations can be made exactly if those for each of them can, and they
lead to what is reached. -/
theorem forM_changes_iff (hs : s.Sound) (hk : s.Keyed)
    (hdeclared : ∀ m ∈ declared, m.Sound ∧ m.Keyed s.app)
    (hnames : (declared.map (·.name)).Nodup)
    (hu : u.Sound) (happ : u.app = s.app)
    (hsame : ∀ m ∈ declared, u.model? m.name = s.model? m.name) :
    (declared.flatMap s.changesFor).forM Operation.apply u = .ok () t ↔
      (∀ m ∈ declared, ∀ prior, s.model? m.name = some prior → prior.KeysFit m) ∧
        t = u.withModels (declared.map s.reached) := by
  induction declared generalizing u with
  | nil =>
      rw [List.flatMap_nil, forM_nil_eq_ok]
      constructor
      · rintro rfl
        exact ⟨by simp, rfl⟩
      · rintro ⟨-, rfl⟩
        rfl
  | cons m rest ih =>
      obtain ⟨⟨hm, hmk⟩, hrest⟩ := List.forall_mem_cons.mp hdeclared
      obtain ⟨hnot, hnames⟩ := List.nodup_cons.mp hnames
      obtain ⟨hfirst, hlater⟩ := List.forall_mem_cons.mp hsame
      have hothers := model?_withReached_of_not_mem hs hnot hlater
      have hfollow := ih hrest hnames (hu.withModel (hs.reached hm)) happ hothers
      rw [List.flatMap_cons, forM_append_eq_ok, List.forall_mem_cons]
      constructor
      · rintro ⟨v, hone, hall⟩
        obtain ⟨hfit, rfl⟩ := (forM_changesFor_iff hs hk hm hmk hu happ hfirst).mp hone
        obtain ⟨hfits, rfl⟩ := hfollow.mp hall
        exact ⟨⟨hfit, hfits⟩, rfl⟩
      · rintro ⟨⟨hfit, hfits⟩, rfl⟩
        exact ⟨_, (forM_changesFor_iff hs hk hm hmk hu happ hfirst).mpr ⟨hfit, rfl⟩,
          hfollow.mpr ⟨hfits, rfl⟩⟩

/-! ### The models that are not declared -/

def withoutModels (u : AppSchema) (names : List String) : AppSchema := names.foldl withoutModel u

/-- Models that are there are deleted one by one. -/
theorem forM_deletes_iff {names : List String} (hnames : names.Nodup)
    (hthere : ∀ name ∈ names, ∃ m, u.model? name = some m) :
    (names.map .deleteModel).forM Operation.apply u = .ok () t ↔ t = u.withoutModels names := by
  induction names generalizing u with
  | nil =>
      rw [List.map_nil, forM_nil_eq_ok]
      exact eq_comm
  | cons name rest ih =>
      obtain ⟨hnot, hrest⟩ := List.nodup_cons.mp hnames
      obtain ⟨⟨m, hm⟩, hothers⟩ := List.forall_mem_cons.mp hthere
      have hleft := exists_model_withoutModel hnot hothers
      rw [List.map_cons, forM_cons_eq_ok]
      constructor
      · rintro ⟨v, hdelete, h⟩
        obtain ⟨m, -, rfl⟩ := Operation.applyDelete_iff.mp hdelete
        exact (ih hrest hleft).mp h
      · intro h
        exact ⟨_, Operation.applyDelete_iff.mpr ⟨m, hm, rfl⟩, (ih hrest hleft).mpr h⟩

theorem model?_withoutModels {names : List String} :
    (u.withoutModels names).model? name = if name ∈ names then none else u.model? name := by
  induction names generalizing u with
  | nil => simp [withoutModels]
  | cons other rest ih =>
      show (withoutModels (u.withoutModel other) rest).model? name = _
      rw [ih, model?_withoutModel]
      by_cases hrest : name ∈ rest
      · rw [if_pos hrest, if_pos (List.mem_cons_of_mem _ hrest)]
      · by_cases hother : other = name
        · rw [if_neg hrest, if_pos hother, if_pos (hother ▸ List.mem_cons_self)]
        · rw [if_neg hrest, if_neg hother, if_neg]
          simpa [hrest] using Ne.symm hother

theorem model?_withModels_of_not_mem {models : List Model}
    (h : name ∉ models.map (·.name)) : (u.withModels models).model? name = u.model? name := by
  induction models generalizing u with
  | nil => rfl
  | cons m rest ih =>
      rw [List.map_cons, List.mem_cons, not_or] at h
      show (withModels (u.withModel m) rest).model? name = _
      rw [ih h.2, model?_withModel, if_neg (Ne.symm h.1)]

theorem model?_withModels_of_mem {models : List Model} (hnames : (models.map (·.name)).Nodup)
    (h : m ∈ models) : (u.withModels models).model? m.name = some m := by
  induction models generalizing u with
  | nil => cases h
  | cons first rest ih =>
      obtain ⟨hnot, hrest⟩ := List.nodup_cons.mp hnames
      show (withModels (u.withModel first) rest).model? m.name = _
      rcases List.mem_cons.mp h with rfl | h
      · rw [model?_withModels_of_not_mem hnot, model?_withModel_self]
      · exact ih hrest h

/-! ### All declared models -/

/-- The state when it was led to the declared models. -/
def ledTo (s : AppSchema) (declared : List Model) : AppSchema :=
  (s.withModels (declared.map s.reached)).withoutModels (s.undeclared declared)

theorem mem_undeclared : name ∈ s.undeclared declared ↔
    name ∈ s.models.names ∧ name ∉ declared.map (·.name) := by
  simp [undeclared]

theorem Sound.names_reached (hs : s.Sound) :
    (declared.map s.reached).map (·.name) = declared.map (·.name) := by
  rw [List.map_map]
  exact List.map_congr_left fun m _ => hs.name_reached

/-- The models that are not declared stay until they are deleted. -/
theorem Sound.exists_of_mem_undeclared (hs : s.Sound) (hname : name ∈ s.undeclared declared) :
    ∃ m, (s.withModels (declared.map s.reached)).model? name = some m := by
  obtain ⟨hthere, hnot⟩ := mem_undeclared.mp hname
  rw [← hs.names_reached] at hnot
  rw [model?_withModels_of_not_mem hnot]
  exact Named.mem_names_iff.mp hthere

/-- The state that the difference leads to has what is reached for each declaration. -/
theorem model?_ledTo_of_mem (hs : s.Sound) (hnames : (declared.map (·.name)).Nodup)
    (hm : m ∈ declared) : (s.ledTo declared).model? m.name = some (s.reached m) := by
  have hdeclared : m.name ∉ s.undeclared declared := fun h =>
    (mem_undeclared.mp h).2 (List.mem_map_of_mem hm)
  rw [ledTo, model?_withoutModels, if_neg hdeclared]
  rw [← hs.names_reached] at hnames
  have hreached := model?_withModels_of_mem (u := s) hnames
    (List.mem_map_of_mem (f := s.reached) hm)
  rwa [hs.name_reached] at hreached

theorem model?_ledTo_of_not_mem (hs : s.Sound) (h : name ∉ declared.map (·.name)) :
    (s.ledTo declared).model? name = none := by
  rw [ledTo, model?_withoutModels]
  split
  · rfl
  · next hnot =>
      have hnew : s.model? name = none := Named.get?_eq_none_iff.mpr fun hthere =>
        hnot (mem_undeclared.mpr ⟨hthere, h⟩)
      rw [← hs.names_reached] at h
      rw [model?_withModels_of_not_mem h, hnew]

/-- The operations that lead to declared models succeed where each recorded model has the field that
is the declared key, and each declared model the one that is the recorded key. -/
theorem forM_diff_iff (hs : s.Sound) (hk : s.Keyed)
    (hdeclared : ∀ m ∈ declared, m.Sound ∧ m.Keyed s.app)
    (hnames : (declared.map (·.name)).Nodup) :
    (s.diff declared).forM Operation.apply s = .ok () t ↔
      (∀ m ∈ declared, ∀ prior, s.model? m.name = some prior → prior.KeysFit m) ∧
        t = s.ledTo declared := by
  have hdeletes := forM_deletes_iff (t := t) (hs.ordered.nodup_names.filter _) fun _ h =>
    hs.exists_of_mem_undeclared (h : _ ∈ s.undeclared declared)
  have hchanges := fun u =>
    forM_changes_iff (t := u) hs hk hdeclared hnames hs rfl fun _ _ => rfl
  rw [diff, forM_append_eq_ok]
  constructor
  · rintro ⟨u, hu, h⟩
    obtain ⟨hfit, rfl⟩ := (hchanges u).mp hu
    exact ⟨hfit, hdeletes.mp h⟩
  · rintro ⟨hfit, h⟩
    exact ⟨_, (hchanges _).mpr ⟨hfit, rfl⟩, hdeletes.mpr h⟩

/-- A state that was led to declared models is there. -/
theorem diff_ledTo (hs : s.Sound) (hdeclared : ∀ m ∈ declared, m.Sound)
    (hnames : (declared.map (·.name)).Nodup) : (s.ledTo declared).diff declared = [] := by
  have hchanges : declared.flatMap (s.ledTo declared).changesFor = [] := by
    rw [List.flatMap_eq_nil_iff]
    intro m hm
    rw [changesFor, model?_ledTo_of_mem hs hnames hm]
    refine Model.changes_eq_nil (hdeclared m hm) (hs.reached (hdeclared m hm)) ?_ ?_
    · intro name
      cases hmodel : s.model? m.name with
      | none => rw [reached_of_none hmodel]
      | some prior => rw [reached_of_some hmodel, Model.mem_names_ledTo]
    · cases hmodel : s.model? m.name with
      | none => rw [reached_of_none hmodel]
      | some prior =>
          rw [reached_of_some hmodel]
          rfl
  have hundeclared : (s.ledTo declared).undeclared declared = [] := by
    rw [List.eq_nil_iff_forall_not_mem]
    intro name hname
    obtain ⟨hthere, hnot⟩ := mem_undeclared.mp hname
    obtain ⟨m, hm⟩ := Named.mem_names_iff.mp hthere
    have hgone := model?_ledTo_of_not_mem hs hnot
    rw [model?, hm] at hgone
    cases hgone
  rw [diff, hchanges, hundeclared]
  rfl

end AppSchema

/-! ### Fields that are defined differently -/

/-- The one number that is not equal to itself is NaN. -/
theorem Binary64.sameNumber_self_iff {x : Binary64} : x.sameNumber x = true ↔ x ≠ .nan := by
  cases x <;> simp [sameNumber]

/-- A field is defined like itself, unless its default is no number and so equals nothing. -/
theorem Field.same_self_iff {field : Field} :
    field.same field = true ↔ field.default ≠ some (.float .nan) := by
  unfold Field.same
  rw [beq_self_eq_true, Bool.true_and]
  cases h : field.default with
  | none => simp [sameDefault]
  | some value => cases value <;> simp [sameDefault, Value.same, Binary64.sameNumber_self_iff]

namespace AppSchema

/-- The field of a model, if the state has both. -/
def field? (s : AppSchema) (model field : String) : Option Field :=
  (s.model? model).bind (·.field? field)

/-- The fields of all declared models, each with the name of its model. -/
def entries (declared : List Model) : List (String × String × Field) :=
  declared.flatMap fun m => m.fields.map fun (name, field) => (m.name, name, field)

def reportOf (s : AppSchema) : String × String × Field → Option FieldChange
  | (model, name, field) => (s.field? model name).bind fun recorded =>
    if recorded.same field then none else some ⟨model, name, recorded, field⟩

/-- A declared field that the state does not have yet, with a default that is no number. Such a
default equals nothing, not even itself. -/
def unequalOf (s : AppSchema) : String × String × Field → Option FieldChange
  | (model, name, field) =>
    if s.field? model name = none ∧ field.default = some (.float .nan) then
      some ⟨model, name, field, field⟩
    else none

/-- The declared fields that would be reported although they are as they are declared. -/
def unequal (s : AppSchema) (declared : List Model) : List FieldChange :=
  (entries declared).filterMap s.unequalOf

variable {s t u : AppSchema} {m now prior : Model} {declared : List Model} {name : String}

/-- What is reported is looked up entry by entry in the declarations. -/
theorem altered_eq_filterMap : s.altered declared = (entries declared).filterMap s.reportOf := by
  unfold altered entries
  rw [List.filterMap_flatMap]
  refine List.flatMap_congr fun m _ => ?_
  rw [List.filterMap_map]
  cases hm : s.model? m.name with
  | none =>
      refine (List.filterMap_eq_nil_iff.mpr fun entry _ => ?_).symm
      simp [reportOf, field?, hm]
  | some prior =>
      refine List.filterMap_congr fun entry _ => ?_
      cases hfield : prior.field? entry.1 <;> simp [reportOf, field?, hm, hfield]

/-- A field is kept as it was recorded, or comes as it was declared. -/
theorem field?_ledTo (hprior : prior.Sound) (hm : m.Sound) {entry : String × Field}
    (hentry : entry ∈ m.fields) :
    (prior.ledTo m).field? entry.1 = some ((prior.field? entry.1).getD entry.2) := by
  have hget := Named.get?_of_mem hm.fields hentry
  have hname : entry.1 ∈ m.fields.names := List.mem_map_of_mem hentry
  rw [Model.field?, Model.ledTo, Named.get?_append, Model.keptFields, Model.fieldsNotIn,
    Named.get?_filter _ hprior.fields, Named.get?_filter _ hm.fields, hget, Model.field?]
  cases hold : prior.fields.get? entry.1 with
  | some recorded => simp [Option.filter, hname]
  | none => simp [Option.filter, Named.has_eq_false_iff.mpr hold]

/-- In the state that was led to declared models a field is as it was there before, or as it is
declared. -/
theorem field?_of_mem_entries (hs : s.Sound) (hdeclared : ∀ m ∈ declared, m.Sound)
    (hnames : (declared.map (·.name)).Nodup) {model : String} {field : Field}
    (h : (model, name, field) ∈ entries declared) :
    (s.ledTo declared).field? model name = some ((s.field? model name).getD field) := by
  obtain ⟨m, hm, h⟩ := List.mem_flatMap.mp h
  obtain ⟨entry, hentry, h⟩ := List.mem_map.mp h
  cases h
  unfold field?
  rw [model?_ledTo_of_mem hs hnames hm]
  cases hmodel : s.model? m.name with
  | some prior =>
      rw [reached_of_some hmodel]
      exact field?_ledTo (hs.model _ _ hmodel) (hdeclared m hm) hentry
  | none =>
      rw [reached_of_none hmodel]
      exact Named.get?_of_mem (hdeclared m hm).fields hentry

/-- What is reported then was reported before, or it is new and equals nothing. -/
theorem reportOf_ledTo (hs : s.Sound) (hdeclared : ∀ m ∈ declared, m.Sound)
    (hnames : (declared.map (·.name)).Nodup) {entry : String × String × Field}
    (h : entry ∈ entries declared) :
    (s.ledTo declared).reportOf entry = (s.reportOf entry).or (s.unequalOf entry) := by
  obtain ⟨model, name, field⟩ := entry
  simp only [reportOf, unequalOf, field?_of_mem_entries hs hdeclared hnames h]
  cases s.field? model name with
  | some recorded => simp
  | none =>
      by_cases hnan : field.default = some (.float .nan)
      · have hdiffers : field.same field = false := by
          rw [← Bool.not_eq_true, Field.same_self_iff, not_not]
          exact hnan
        simp [hdiffers, hnan]
      · simp [Field.same_self_iff.mpr hnan, hnan]

/-- After the difference the report is the one before it and the new fields that differ from
themselves. -/
theorem altered_ledTo (hs : s.Sound) (hdeclared : ∀ m ∈ declared, m.Sound)
    (hnames : (declared.map (·.name)).Nodup) :
    ((s.ledTo declared).altered declared).Perm (s.altered declared ++ s.unequal declared) := by
  simp only [altered_eq_filterMap, unequal]
  have hreports : ∀ entry ∈ entries declared,
      (s.ledTo declared).reportOf entry = (s.reportOf entry).or (s.unequalOf entry) :=
    fun _ => reportOf_ledTo hs hdeclared hnames
  generalize entries declared = reported at hreports ⊢
  induction reported with
  | nil => exact .refl _
  | cons entry rest ih =>
      have hrest := ih fun other hother => hreports other (List.mem_cons_of_mem _ hother)
      have hentry := hreports entry List.mem_cons_self
      rw [List.filterMap_cons, List.filterMap_cons, List.filterMap_cons, hentry]
      cases hold : s.reportOf entry with
      | some change =>
          -- what was reported before is in the state already
          have hnew : s.unequalOf entry = none := by
            obtain ⟨model, name, field⟩ := entry
            obtain ⟨recorded, hrecorded, -⟩ := Option.bind_eq_some_iff.mp hold
            simp [unequalOf, hrecorded]
          simpa [hnew] using hrest
      | none =>
          cases s.unequalOf entry with
          | none => simpa using hrest
          | some change => simpa using (hrest.cons change).trans List.perm_middle.symm

/-- The same is reported exactly if no new field equals nothing. -/
theorem altered_ledTo_eq_iff (hs : s.Sound) (hdeclared : ∀ m ∈ declared, m.Sound)
    (hnames : (declared.map (·.name)).Nodup) :
    (s.ledTo declared).altered declared = s.altered declared ↔ s.unequal declared = [] := by
  constructor
  · intro h
    have hlength := (altered_ledTo hs hdeclared hnames).length_eq
    rw [h, List.length_append] at hlength
    exact List.eq_nil_of_length_eq_zero (by omega)
  · intro h
    rw [altered_eq_filterMap, altered_eq_filterMap]
    refine List.filterMap_congr fun entry hentry => ?_
    rw [reportOf_ledTo hs hdeclared hnames hentry,
      List.filterMap_eq_nil_iff.mp h entry hentry, Option.or_none]

/-! ### Reaching the declared models -/

/-- What a state has become when it was led to declared models. -/
structure Reaches (before : AppSchema) (declared : List Model) (after : AppSchema) : Prop where
  /-- The models are those that are declared. -/
  names : ∀ name, name ∈ after.models.names ↔ name ∈ declared.map (·.name)
  /-- A new model is as it is declared. -/
  created : ∀ m ∈ declared, before.model? m.name = none → after.model? m.name = some m
  /-- A model that was there keeps its table and its key. Its fields are the declared ones: first
  those that were there, in their order and as they were, then the new ones, in their order and as
  they are declared. Its indexes are the declared ones. -/
  changed : ∀ m ∈ declared, ∀ prior, before.model? m.name = some prior →
    ∃ now, after.model? m.name = some now ∧ now.table = prior.table ∧ now.key = prior.key ∧
      now.fields.names.Perm m.fields.names ∧
      now.fields = (prior.fields.filter fun entry => entry.1 ∈ m.fields.names) ++
        m.fields.filter (fun entry => entry.1 ∉ prior.fields.names) ∧
      now.indexes = m.indexes
  /-- There is nothing left to do. -/
  settled : after.diff declared = []
  /-- The fields that are defined differently are still reported. What else is reported is new, is
  as it is declared, and has a default that is no number. -/
  altered : (after.altered declared).Perm (before.altered declared ++ before.unequal declared)
  /-- The reports are the same exactly if no new field has such a default. -/
  altered_eq_iff : after.altered declared = before.altered declared ↔
    before.unequal declared = []

/-- The state that the difference leads to has the declared models and gives this report. -/
theorem reaches_ledTo (hs : s.Sound) (hdeclared : ∀ m ∈ declared, m.Sound)
    (hnames : (declared.map (·.name)).Nodup) : s.Reaches declared (s.ledTo declared) where
  names name := by
    rw [Named.mem_names_iff]
    constructor
    · rintro ⟨m, hm⟩
      by_contra hnot
      have hgone := model?_ledTo_of_not_mem hs hnot
      rw [model?, hm] at hgone
      cases hgone
    · intro hname
      obtain ⟨m, hm, rfl⟩ := List.mem_map.mp hname
      exact ⟨_, model?_ledTo_of_mem hs hnames hm⟩
  created m hm hnone := by
    rw [model?_ledTo_of_mem hs hnames hm, reached_of_none hnone]
  changed m hm prior hprior := by
    refine ⟨prior.ledTo m, ?_, rfl, rfl, ?_, ?_, rfl⟩
    · rw [model?_ledTo_of_mem hs hnames hm, reached_of_some hprior]
    · have hledTo := (hs.model _ _ hprior).ledTo (hdeclared m hm)
      rw [List.perm_ext_iff_of_nodup hledTo.fields (hdeclared m hm).fields]
      exact fun name => Model.mem_names_ledTo
    · rw [Model.ledTo, Model.keptFields, Model.fieldsNotIn_eq]
  settled := diff_ledTo hs hdeclared hnames
  altered := altered_ledTo hs hdeclared hnames
  altered_eq_iff := altered_ledTo_eq_iff hs hdeclared hnames

/-- From any state that migrations lead to, the operations for declared models succeed where each
model that is there already has the field that is the declared key and is declared with the field
that is its key now. Then they reach the declared models. -/
theorem diff_reaches_declared {app : String} {migrations : List Migration} {before : AppSchema}
    (hfields : ∀ migration ∈ migrations, migration.FieldsDiffer)
    (hreplay : replay app migrations = .ok before)
    (hdeclared : ∀ m ∈ declared, m.DeclaredIn app)
    (hnames : (declared.map (·.name)).Nodup) :
    ((∃ after, Change.outcome ((before.diff declared).forM Operation.apply) before
        = .ok ((), after)) ↔
      ∀ m ∈ declared, ∀ prior, before.model? m.name = some prior → prior.KeysFit m) ∧
    ∀ after, Change.outcome ((before.diff declared).forM Operation.apply) before = .ok ((), after) →
      before.Reaches declared after := by
  have hs := replay_sound hfields hreplay
  have hk := replay_keyed hfields hreplay
  have hmodels := Model.sound_keyed_of_declaredIn hreplay hdeclared
  have hiff := fun after => forM_diff_iff (t := after) hs hk hmodels hnames
  simp only [Change.outcome_eq_ok]
  refine ⟨⟨?_, ?_⟩, ?_⟩
  · rintro ⟨after, h⟩
    exact ((hiff after).mp h).1
  · intro hfit
    exact ⟨_, (hiff _).mpr ⟨hfit, rfl⟩⟩
  · intro after h
    obtain ⟨-, rfl⟩ := (hiff after).mp h
    exact reaches_ledTo hs (fun m hm => (hmodels m hm).1) hnames

/-- A note with a title in place of its text. -/
def titledNote : Model where
  app := "notes"
  name := "Note"
  table := "note"
  key := "id"
  fields := [("id", .ofKind .auto), ("title", .ofKind (.char 80))]
  indexes := [("note_title_idx", ["title"])]

def labelModel : Model where
  app := "notes"
  name := "Label"
  table := "label"
  key := "label"
  fields := [("label", { Field.ofKind .text with primaryKey := true })]
  indexes := []

/-- The notes get titles instead of texts, and labels come with them. -/
theorem notes_retitled : ∃ after,
    Change.outcome ((Operation.noteState.diff [titledNote, labelModel]).forM Operation.apply)
      Operation.noteState = .ok ((), after) ∧
    Operation.noteState.Reaches [titledNote, labelModel] after := by
  have hdeclared : ∀ m ∈ [titledNote, labelModel], m.DeclaredIn "notes" := by
    intro m hm
    rcases List.mem_pair.mp hm with rfl | rfl
    · exact ⟨⟨"Note", some "note", titledNote.fields, titledNote.indexes⟩, by decide, rfl⟩
    · exact ⟨⟨"Label", some "label", labelModel.fields, []⟩, by decide, rfl⟩
  have hfields : ∀ migration ∈ [Operation.noteMigration], migration.FieldsDiffer := by
    intro migration hmigration
    rw [List.mem_singleton.mp hmigration]
    intro operation hoperation
    rw [List.mem_singleton.mp hoperation]
    show List.Nodup _
    decide
  obtain ⟨hiff, hreaches⟩ := diff_reaches_declared hfields rfl hdeclared (by decide)
  have hfit : ∀ m ∈ [titledNote, labelModel], ∀ prior,
      Operation.noteState.model? m.name = some prior → prior.KeysFit m := by
    intro m hm prior hprior
    rcases List.mem_pair.mp hm with rfl | rfl
    · cases hprior
      exact ⟨by decide, by decide⟩
    · cases hprior
  obtain ⟨after, h⟩ := hiff.mpr hfit
  exact ⟨after, h, hreaches after h⟩

/-- Notes with a score, which is no number until it is given. -/
def scoredNote : Model where
  app := "notes"
  name := "Note"
  table := "note"
  key := "id"
  fields := Operation.noteModel.fields ++
    [("score", { Field.ofKind .float with default := some (.float .nan) })]
  indexes := []

/-- The score is added as it is declared, and is reported to be defined differently from then on. -/
theorem new_score_reported : scoredNote.DeclaredIn "notes" ∧
    replay "notes" [Operation.noteMigration] = .ok Operation.noteState ∧ ∃ after,
    Change.outcome ((Operation.noteState.diff [scoredNote]).forM Operation.apply)
      Operation.noteState = .ok ((), after) ∧
    after.field? "Note" "score" = scoredNote.field? "score" ∧
    Operation.noteState.altered [scoredNote] = [] ∧
    (after.altered [scoredNote]).map (fun change => (change.model, change.field))
      = [("Note", "score")] :=
  ⟨⟨⟨"Note", some "note", scoredNote.fields, []⟩, by decide, rfl⟩, rfl, _, rfl, rfl, rfl, by decide⟩

end AppSchema

end SchemaHistory
