import SchemaHistory.AppSchema
import SchemaHistory.Proofs.Named
import SchemaHistory.Proofs.Sessions
import Mathlib.Data.List.Nodup

/-!
# What operations make of a state

`Operation.Applies` says what each kind of operation that is not refused makes of the state of an
app, and `Model.Changes` does so for the operations that change one model. Everything later goes by
these relations instead of the programs.

Two things hold of every state that migrations lead to: the models are in the order of their names
and go by them, and every model is one whose fields have different names and whose indexes are over
its own fields. This is `AppSchema.Sound`.
-/

namespace SchemaHistory

/-! ### Actions on the state -/

theorem get_eq_ok {s t a : AppSchema} : (get : Change AppSchema) s = .ok a t ↔ s = a ∧ s = t := by
  show EStateM.Result.ok s s = _ ↔ _
  simp

theorem modify_eq_ok {f : AppSchema → AppSchema} {s t : AppSchema} :
    (modify f : Change Unit) s = .ok () t ↔ f s = t := by
  show EStateM.Result.ok () (f s) = _ ↔ _
  simp

theorem Change.ofExcept_eq_ok {α : Type} {r : Except SchemaError α} {s t : AppSchema} {a : α} :
    Change.ofExcept r s = .ok a t ↔ r = .ok a ∧ s = t := by
  cases r <;> simp [Change.ofExcept]

theorem Change.outcome_eq_ok {α : Type} {change : Change α} {s t : AppSchema} {a : α} :
    Change.outcome change s = .ok (a, t) ↔ change s = .ok a t := by
  unfold Change.outcome
  cases h : change s <;> simp

/-- The state with a model in the place of its name. -/
def AppSchema.withModel (state : AppSchema) (model : Model) : AppSchema :=
  { state with models := state.models.insert model.name model }

def AppSchema.withoutModel (state : AppSchema) (name : String) : AppSchema :=
  { state with models := state.models.erase name }

variable {s t u : AppSchema} {m m' : Model} {name index : String} {operation : Operation}

namespace Operation

theorem refuse_ne_ok {α : Type} {fault : StateFault} {a : α} : refuse fault s ≠ .ok a t := by
  intro h
  obtain ⟨state, u, -, h⟩ := bind_eq_ok.mp h
  exact absurd h throw_ne_ok

/-- A model is got exactly if the state has it, and the state stays. -/
theorem getModel_eq_ok : getModel name s = .ok m t ↔ s.model? name = some m ∧ s = t := by
  constructor
  · intro h
    obtain ⟨state, u, hget, h⟩ := bind_eq_ok.mp h
    obtain ⟨rfl, rfl⟩ := get_eq_ok.mp hget
    cases hmodel : s.model? name with
    | none =>
        simp only [hmodel] at h
        exact absurd h refuse_ne_ok
    | some model =>
        simp only [hmodel] at h
        obtain ⟨rfl, rfl⟩ := pure_eq_ok.mp h
        exact ⟨rfl, rfl⟩
  · rintro ⟨hmodel, rfl⟩
    refine bind_eq_ok.mpr ⟨s, s, get_eq_ok.mpr ⟨rfl, rfl⟩, ?_⟩
    simp [hmodel]

/-- A model that is put replaces the one of its name. -/
theorem putModel_eq_ok : putModel m s = .ok () t ↔ s.withModel m = t := modify_eq_ok

/-- A check that refuses the operation in some cases. -/
theorem guard_eq_ok {α β : Type} {c : Prop} [Decidable c] {fault : StateFault} {k : β → Change α}
    {change : Change α} {a : α} :
    (if c then refuse fault >>= k else change) s = .ok a t ↔ ¬c ∧ change s = .ok a t := by
  by_cases h : c
  · simp only [h, not_true_eq_false, false_and, iff_false]
    intro hrefuse
    obtain ⟨b, u, hrefuse, -⟩ := bind_eq_ok.mp hrefuse
    exact refuse_ne_ok hrefuse
  · simp [h]

end Operation

/-! ### Changes to models -/

/-- A model is made exactly from fields with one key. -/
theorem Model.ofParts_eq_ok {app table : String} {fields : Fields}
    (h : Model.ofParts app name table fields [] = .ok m) :
    ∃ key, keysOf fields = [key] ∧ m = { app, name, table, key, fields, indexes := [] } := by
  unfold Model.ofParts at h
  split at h
  · next key hkeys =>
      cases h
      exact ⟨key, hkeys, rfl⟩
  · cases h
  · cases h

/-- A check at which a change of a model fails in some cases. -/
theorem Revision.guard_eq_ok {α β : Type} {c : Prop} [Decidable c] {e : SchemaError}
    {k : β → Revision α} {revision : Revision α} {a : α} :
    (if c then throw e >>= k else revision) m = .ok a m' ↔ ¬c ∧ revision m = .ok a m' := by
  by_cases h : c
  · simp only [h, not_true_eq_false, false_and, iff_false]
    exact nofun
  · simp [h]

theorem Revision.require_eq_ok {α : Type} {e : SchemaError} {found : Option α} {a : α} :
    Revision.require e found m = .ok a m' ↔ found = some a ∧ m = m' := by
  cases found with
  | some b => exact pure_eq_ok.trans (and_congr_left fun _ => Option.some_inj.symm)
  | none => exact ⟨nofun, nofun⟩

theorem Revision.refuseAny_eq_ok {α : Type} {e : α → SchemaError} {found : Option α} :
    Revision.refuseAny e found m = .ok () m' ↔ found = none ∧ m = m' := by
  cases found with
  | some b => exact ⟨nofun, nofun⟩
  | none => exact pure_eq_ok.trans (and_congr_left fun _ => iff_of_true rfl rfl)

/-- A model that a change makes, where its answer does not matter. -/
theorem Revision.map_outcome_eq_ok {α : Type} {revision : Revision α} :
    (revision.outcome m).map (·.2) = .ok m' ↔ ∃ a, revision m = .ok a m' := by
  unfold Revision.outcome
  cases h : revision m <;> simp [Except.map]

namespace Model

/-- A field is added if it is new and no key. -/
theorem addField_iff {field : Field} : addField name field m = .ok () m' ↔
    m.field? name = none ∧ field.isPrimaryKey = false ∧
      m' = { m with fields := m.fields ++ [(name, field)] } := by
  refine Revision.guard_eq_ok.trans ?_
  rw [Revision.guard_eq_ok, Bool.not_eq_true, Bool.not_eq_true, Named.has_eq_false_iff]
  refine and_congr_right fun hnone => and_congr_right fun _ => ?_
  rw [Named.set_of_get?_eq_none hnone]
  exact ⟨fun h => (EStateM.Result.ok.inj h).2.symm, fun h => h ▸ rfl⟩

theorem removeField_iff {field : Field} : removeField name m = .ok field m' ↔
    m.key ≠ name ∧ m.isIndexed name = false ∧ m.field? name = some field ∧
      m' = { m with fields := m.fields.erase name } := by
  refine Revision.guard_eq_ok.trans ?_
  rw [Revision.guard_eq_ok, Bool.not_eq_true]
  refine and_congr_right fun _ => and_congr_right fun _ => ?_
  exact Revision.require_eq_ok.trans (and_congr_right fun _ => eq_comm)

/-- An index is added if it is new and covers fields that are there, at least one. -/
theorem addIndex_iff {fields : List String} : addIndex index fields m = .ok () m' ↔
    m.indexes.get? index = none ∧ fields ≠ [] ∧ (∀ field ∈ fields, field ∈ m.fields.names) ∧
      m' = { m with indexes := m.indexes.insert index fields } := by
  have hknown : (fields.find? fun field => !m.fields.has field) = none ↔
      ∀ field ∈ fields, field ∈ m.fields.names := by
    rw [List.find?_eq_none]
    refine forall₂_congr fun field _ => ?_
    rw [Bool.not_eq_true, Bool.not_eq_false', Named.has_eq_true_iff, Named.mem_names_iff]
  refine Revision.guard_eq_ok.trans ?_
  rw [Revision.guard_eq_ok, Bool.not_eq_true, Named.has_eq_false_iff, List.isEmpty_iff, ← hknown]
  refine and_congr_right fun _ => and_congr_right fun _ => ?_
  constructor
  · intro h
    obtain ⟨⟨⟩, u, hrefuse, hset⟩ := bind_eq_ok.mp h
    obtain ⟨hnone, rfl⟩ := Revision.refuseAny_eq_ok.mp hrefuse
    exact ⟨hnone, (EStateM.Result.ok.inj hset).2.symm⟩
  · rintro ⟨hnone, rfl⟩
    exact bind_eq_ok.mpr ⟨(), m, Revision.refuseAny_eq_ok.mpr ⟨hnone, rfl⟩, rfl⟩

theorem removeIndex_iff {fields : List String} : removeIndex index m = .ok fields m' ↔
    m.indexes.get? index = some fields ∧ m' = { m with indexes := m.indexes.erase index } :=
  Revision.require_eq_ok.trans (and_congr_right fun _ => eq_comm)

end Model

/-- What the operations on one model make of it. -/
inductive Model.Changes (m : Model) : Operation → Model → Prop where
  | addFields {fields : Fields} :
      fields.names.Nodup → List.Disjoint m.fields.names fields.names →
      Changes m (.addFields m.name fields) { m with fields := m.fields ++ fields }
  | removeFields {names : List String} :
      names.Nodup → (∀ name ∈ names, name ∈ m.fields.names) →
      (∀ name ∈ names, m.isIndexed name = false) →
      Changes m (.removeFields m.name names)
        { m with fields := m.fields.filter fun entry => entry.1 ∉ names }
  | addIndex {index : String} {fields : List String} :
      m.indexes.get? index = none → (∀ field ∈ fields, field ∈ m.fields.names) →
      Changes m (.addIndex m.name index fields)
        { m with indexes := m.indexes.insert index fields }
  | removeIndex {index : String} :
      index ∈ m.indexes.names →
      Changes m (.removeIndex m.name index) { m with indexes := m.indexes.erase index }

theorem Model.Changes.name_eq (h : m.Changes operation m') : m'.name = m.name := by
  cases h <;> rfl

/-- What operations make of a state. -/
inductive Operation.Applies (s : AppSchema) : Operation → AppSchema → Prop where
  | createModel {name : String} {table : Option String} {fields : Fields} {m : Model} :
      s.model? name = none →
      Model.ofParts s.app name (table.getD (usualTable s.app name)) fields [] = .ok m →
      Applies s (.createModel name table fields) (s.withModel m)
  | deleteModel {name : String} {m : Model} :
      s.model? name = some m → Applies s (.deleteModel name) (s.withoutModel name)
  | change {operation : Operation} {m m' : Model} :
      s.model? operation.model = some m → m.Changes operation m' →
      Applies s operation (s.withModel m')

namespace Operation

/-! ### When an operation is not refused -/

/-- A revision that is accepted ends in the state with the revised model. -/
theorem revise_eq_ok {α : Type} {revision : Revision α} :
    revise m revision s = .ok () t ↔ ∃ a m', revision m = .ok a m' ∧ t = s.withModel m' := by
  unfold revise
  cases h : revision m with
  | ok a m' =>
      constructor
      · intro hput
        exact ⟨a, m', rfl, (putModel_eq_ok.mp hput).symm⟩
      · rintro ⟨b, n, hsame, rfl⟩
        obtain ⟨-, rfl⟩ := EStateM.Result.ok.inj hsame
        rfl
  | error e m' => exact ⟨nofun, fun ⟨_, _, hok, _⟩ => nomatch hok⟩

/-- A change to one model reads it, checks it, and puts back what it is changed to. -/
theorem checked_iff {α β : Type} {c : Model → Prop} [∀ m, Decidable (c m)] {fault : StateFault}
    {k : Model → β → Change Unit} {revision : Revision α} :
    (getModel name >>= fun m =>
      if c m then refuse fault >>= k m else revise m revision : Change Unit) s = .ok () t ↔
      ∃ m, s.model? name = some m ∧ ¬c m ∧ ∃ a m', revision m = .ok a m' ∧
        t = s.withModel m' := by
  constructor
  · intro h
    obtain ⟨m, s₁, hget, h⟩ := bind_eq_ok.mp h
    obtain ⟨hm, rfl⟩ := getModel_eq_ok.mp hget
    obtain ⟨hcheck, h⟩ := guard_eq_ok.mp h
    exact ⟨m, hm, hcheck, revise_eq_ok.mp h⟩
  · rintro ⟨m, hm, hcheck, hrevise⟩
    refine bind_eq_ok.mpr ⟨m, s, getModel_eq_ok.mpr ⟨hm, rfl⟩, guard_eq_ok.mpr ⟨hcheck, ?_⟩⟩
    exact revise_eq_ok.mpr hrevise

/-- A model is created exactly if the name is free and the fields make a model. -/
theorem applyCreate_iff {table : Option String} {fields : Fields} :
    applyCreate name table fields s = .ok () t ↔ s.model? name = none ∧
      ∃ m, Model.ofParts s.app name (table.getD (usualTable s.app name)) fields [] = .ok m ∧
        t = s.withModel m := by
  constructor
  · intro h
    obtain ⟨state, s₁, hget, h⟩ := bind_eq_ok.mp h
    obtain ⟨rfl, rfl⟩ := get_eq_ok.mp hget
    obtain ⟨hnew, h⟩ := guard_eq_ok.mp h
    obtain ⟨m, s₁, hanswer, hput⟩ := bind_eq_ok.mp h
    obtain ⟨hparts, rfl⟩ := Change.ofExcept_eq_ok.mp hanswer
    exact ⟨by simpa using hnew, m, hparts, (putModel_eq_ok.mp hput).symm⟩
  · rintro ⟨hnone, m, hparts, rfl⟩
    refine bind_eq_ok.mpr ⟨s, s, get_eq_ok.mpr ⟨rfl, rfl⟩, guard_eq_ok.mpr ⟨by simp [hnone], ?_⟩⟩
    exact bind_eq_ok.mpr ⟨m, s, Change.ofExcept_eq_ok.mpr ⟨hparts, rfl⟩, putModel_eq_ok.mpr rfl⟩

theorem applyDelete_iff : applyDelete name s = .ok () t ↔
    ∃ m, s.model? name = some m ∧ t = s.withoutModel name := by
  constructor
  · intro h
    obtain ⟨m, s₁, hget, h⟩ := bind_eq_ok.mp h
    obtain ⟨hm, rfl⟩ := getModel_eq_ok.mp hget
    exact ⟨m, hm, (modify_eq_ok.mp h).symm⟩
  · rintro ⟨m, hm, rfl⟩
    exact bind_eq_ok.mpr ⟨m, s, getModel_eq_ok.mpr ⟨hm, rfl⟩, modify_eq_ok.mpr rfl⟩

theorem applyAddField_iff {model : String} {field : Field} :
    applyAddField model name field s = .ok () t ↔ ∃ m, s.model? model = some m ∧
      m.field? name = none ∧ field.isPrimaryKey = false ∧
      t = s.withModel { m with fields := m.fields ++ [(name, field)] } := by
  refine checked_iff.trans ⟨?_, ?_⟩
  · rintro ⟨m, hm, -, ⟨⟩, m', hadd, rfl⟩
    obtain ⟨hnone, hkey, rfl⟩ := Model.addField_iff.mp hadd
    exact ⟨m, hm, hnone, hkey, rfl⟩
  · rintro ⟨m, hm, hnone, hkey, rfl⟩
    exact ⟨m, hm, by simp [hnone], (), _, Model.addField_iff.mpr ⟨hnone, hkey, rfl⟩, rfl⟩

theorem applyRemoveField_iff {model : String} :
    applyRemoveField model name s = .ok () t ↔ ∃ m, s.model? model = some m ∧
      name ∈ m.fields.names ∧ m.key ≠ name ∧ m.isIndexed name = false ∧
      t = s.withModel { m with fields := m.fields.erase name } := by
  refine checked_iff.trans ⟨?_, ?_⟩
  · rintro ⟨m, hm, -, field, m', hremove, rfl⟩
    obtain ⟨hkey, hindexed, hfield, rfl⟩ := Model.removeField_iff.mp hremove
    exact ⟨m, hm, Named.mem_names_iff.mpr ⟨field, hfield⟩, hkey, hindexed, rfl⟩
  · rintro ⟨m, hm, hname, hkey, hindexed, rfl⟩
    obtain ⟨field, hfield⟩ := Named.mem_names_iff.mp hname
    have hthere : m.field? name = some field := hfield
    exact ⟨m, hm, by simp [hthere], field, _,
      Model.removeField_iff.mpr ⟨hkey, hindexed, hfield, rfl⟩, rfl⟩

theorem applyAddIndex_iff {fields : List String} :
    applyAddIndex name index fields s = .ok () t ↔ ∃ m, s.model? name = some m ∧
      m.indexes.get? index = none ∧ fields ≠ [] ∧ (∀ field ∈ fields, field ∈ m.fields.names) ∧
      t = s.withModel { m with indexes := m.indexes.insert index fields } := by
  refine checked_iff.trans ⟨?_, ?_⟩
  · rintro ⟨m, hm, -, ⟨⟩, m', hadd, rfl⟩
    obtain ⟨hnone, hempty, hfields, rfl⟩ := Model.addIndex_iff.mp hadd
    exact ⟨m, hm, hnone, hempty, hfields, rfl⟩
  · rintro ⟨m, hm, hnone, hempty, hfields, rfl⟩
    have hnew : m.indexes.has index = false := Named.has_eq_false_iff.mpr hnone
    exact ⟨m, hm, by simp [hnew], (), _,
      Model.addIndex_iff.mpr ⟨hnone, hempty, hfields, rfl⟩, rfl⟩

theorem applyRemoveIndex_iff : applyRemoveIndex name index s = .ok () t ↔
    ∃ m, s.model? name = some m ∧ index ∈ m.indexes.names ∧
      t = s.withModel { m with indexes := m.indexes.erase index } := by
  refine checked_iff.trans ⟨?_, ?_⟩
  · rintro ⟨m, hm, -, fields, m', hremove, rfl⟩
    obtain ⟨hindex, rfl⟩ := Model.removeIndex_iff.mp hremove
    exact ⟨m, hm, Named.mem_names_iff.mpr ⟨fields, hindex⟩, rfl⟩
  · rintro ⟨m, hm, hindex, rfl⟩
    obtain ⟨fields, hfields⟩ := Named.mem_names_iff.mp hindex
    have hthere : m.indexes.has index = true := Named.has_eq_true_iff.mpr ⟨fields, hfields⟩
    exact ⟨m, hm, by simp [hthere], fields, _, Model.removeIndex_iff.mpr ⟨hfields, rfl⟩, rfl⟩

end Operation

/-! ### Sound states -/

/-- The fields of a model have different names, its indexes are in the order of their names, and
every index is over fields of the model. -/
structure Model.Sound (m : Model) : Prop where
  fields : m.fields.names.Nodup
  indexes : m.indexes.Ordered
  indexed : ∀ index covered, m.indexes.get? index = some covered → ∀ field ∈ covered,
    field ∈ m.fields.names

/-- The models of a state are in the order of their names, go by them, and are sound. -/
structure AppSchema.Sound (s : AppSchema) : Prop where
  ordered : s.models.Ordered
  name_eq : ∀ name m, s.model? name = some m → m.name = name
  model : ∀ name m, s.model? name = some m → m.Sound

namespace AppSchema

/-- Only the model of that name is replaced. -/
theorem model?_withModel : (s.withModel m).model? name
    = if m.name = name then some m else s.model? name :=
  Named.get?_insert

theorem model?_withModel_self : (s.withModel m).model? m.name = some m := Named.get?_insert_self

theorem model?_withoutModel {other : String} : (s.withoutModel other).model? name
    = if other = name then none else s.model? name :=
  Named.get?_erase

/-- Models that are there stay when one of another name goes. -/
theorem exists_model_withoutModel {names : List String} (hnot : name ∉ names)
    (hthere : ∀ other ∈ names, ∃ m, s.model? other = some m) :
    ∀ other ∈ names, ∃ m, (s.withoutModel name).model? other = some m := by
  intro other hother
  have hne : name ≠ other := by
    rintro rfl
    exact hnot hother
  rw [model?_withoutModel, if_neg hne]
  exact hthere other hother

theorem withModel_withModel (h : m.name = m'.name) :
    (s.withModel m).withModel m' = s.withModel m' := by
  unfold withModel
  rw [h, Named.insert_insert]

/-- Putting a model where it is changes nothing. -/
theorem Sound.withModel_self (h : s.Sound) (hm : s.model? name = some m) : s.withModel m = s := by
  unfold withModel
  rw [h.name_eq name m hm, h.ordered.insert_get? hm]

theorem Sound.withoutModel_withModel (h : s.Sound) (hm : s.model? m.name = some m) :
    (s.withoutModel m.name).withModel m = s := by
  unfold AppSchema.withoutModel AppSchema.withModel
  rw [h.ordered.insert_erase hm]

theorem withoutModel_of_none (h : s.model? name = none) : s.withoutModel name = s := by
  unfold withoutModel
  rw [Named.erase_of_get?_eq_none h]

theorem Sound.withModel (h : s.Sound) (hm : m.Sound) : (s.withModel m).Sound where
  ordered := h.ordered.insert
  name_eq := by
    intro name m' hm'
    rw [model?_withModel] at hm'
    split at hm'
    · next hname =>
        cases hm'
        exact hname
    · exact h.name_eq name m' hm'
  model := by
    intro name m' hm'
    rw [model?_withModel] at hm'
    split at hm'
    · cases hm'
      exact hm
    · exact h.model name m' hm'

theorem Sound.withoutModel (h : s.Sound) : (s.withoutModel name).Sound where
  ordered := h.ordered.erase
  name_eq := by
    intro other m' hm'
    rw [model?_withoutModel] at hm'
    split at hm'
    · cases hm'
    · exact h.name_eq other m' hm'
  model := by
    intro other m' hm'
    rw [model?_withoutModel] at hm'
    split at hm'
    · cases hm'
    · exact h.model other m' hm'

end AppSchema

/-! ### Operations on sound states -/

namespace Operation

/-- Adding fields one by one adds them all. The model grows on the way. -/
theorem forM_applyAddField_iff {fields : Fields} (hs : s.models.Ordered)
    (hm : s.model? m.name = some m) :
    (fields.forM fun (name, field) => applyAddField m.name name field : Change Unit) s = .ok () t ↔
      fields.names.Nodup ∧ List.Disjoint m.fields.names fields.names ∧
        (∀ entry ∈ fields, entry.2.isPrimaryKey = false) ∧
        t = s.withModel { m with fields := m.fields ++ fields } := by
  induction fields generalizing s m with
  | nil =>
      have hself : s.withModel { m with fields := m.fields ++ [] } = s := by
        rw [List.append_nil, AppSchema.withModel, hs.insert_get? hm]
      rw [forM_nil_eq_ok, hself]
      constructor
      · rintro rfl
        exact ⟨List.nodup_nil, List.disjoint_nil_right _, by simp, rfl⟩
      · rintro ⟨-, -, -, rfl⟩
        rfl
  | cons entry rest ih =>
      obtain ⟨name, field⟩ := entry
      rw [forM_cons_eq_ok]
      set grown : Model := { m with fields := m.fields ++ [(name, field)] } with hgrown
      have hself : (s.withModel grown).model? grown.name = some grown := Named.get?_insert_self
      -- the rest is added to the model as it is with the first field
      have hrest := ih hs.insert hself
      have hthen : ((s.withModel grown).withModel { grown with fields := grown.fields ++ rest })
          = s.withModel { m with fields := m.fields ++ (name, field) :: rest } := by
        rw [AppSchema.withModel_withModel (by rfl), hgrown]
        simp only [List.append_assoc, List.singleton_append]
      rw [hthen] at hrest
      have hnames : grown.fields.names = m.fields.names ++ [name] := by simp [hgrown]
      constructor
      · rintro ⟨u, hfirst, h⟩
        obtain ⟨m', hm', hnone, hkey, rfl⟩ := applyAddField_iff.mp hfirst
        obtain rfl := Option.some.inj (hm.symm.trans hm')
        obtain ⟨hnodup, hapart, hkeys, ht⟩ := hrest.mp h
        rw [hnames, List.disjoint_append_left, List.singleton_disjoint] at hapart
        exact ⟨List.nodup_cons.mpr ⟨hapart.2, hnodup⟩,
          List.disjoint_cons_right.mpr ⟨Named.get?_eq_none_iff.mp hnone, hapart.1⟩,
          List.forall_mem_cons.mpr ⟨hkey, hkeys⟩, ht⟩
      · rintro ⟨hnodup, hapart, hkeys, ht⟩
        obtain ⟨hnot, hnodup⟩ := List.nodup_cons.mp hnodup
        obtain ⟨hnew, hapart⟩ := List.disjoint_cons_right.mp hapart
        obtain ⟨hkey, hkeys⟩ := List.forall_mem_cons.mp hkeys
        refine ⟨s.withModel grown, applyAddField_iff.mpr
          ⟨m, hm, Named.get?_eq_none_iff.mpr hnew, hkey, rfl⟩, hrest.mpr ⟨hnodup, ?_, hkeys, ht⟩⟩
        rw [hnames, List.disjoint_append_left, List.singleton_disjoint]
        exact ⟨hapart, hnot⟩

/-- Removing fields one by one removes them all. The model shrinks on the way. -/
theorem forM_applyRemoveField_iff {names : List String} (hs : s.models.Ordered)
    (hm : s.model? m.name = some m) :
    names.forM (applyRemoveField m.name) s = .ok () t ↔
      names.Nodup ∧ (∀ name ∈ names, name ∈ m.fields.names) ∧ m.key ∉ names ∧
        (∀ name ∈ names, m.isIndexed name = false) ∧
        t = s.withModel { m with fields := m.fields.filter fun entry => entry.1 ∉ names } := by
  induction names generalizing s m with
  | nil =>
      have hall : (m.fields.filter fun entry => entry.1 ∉ []) = m.fields := by simp
      have hself : s.withModel m = s := by
        rw [AppSchema.withModel, hs.insert_get? hm]
      rw [forM_nil_eq_ok, hall, hself]
      constructor
      · rintro rfl
        exact ⟨List.nodup_nil, by simp, List.not_mem_nil, by simp, rfl⟩
      · rintro ⟨-, -, -, -, rfl⟩
        rfl
  | cons name rest ih =>
      rw [forM_cons_eq_ok]
      set shrunk : Model := { m with fields := m.fields.erase name } with hshrunk
      have hself : (s.withModel shrunk).model? shrunk.name = some shrunk := Named.get?_insert_self
      -- the rest is removed from the model as it is without the first field
      have hrest := ih hs.insert hself
      have hthen : (s.withModel shrunk).withModel
            { shrunk with fields := shrunk.fields.filter fun entry => entry.1 ∉ rest }
          = s.withModel { m with fields := m.fields.filter fun entry =>
            entry.1 ∉ name :: rest } := by
        rw [AppSchema.withModel_withModel (by rfl), hshrunk]
        simp only [Named.filter_erase]
      rw [hthen] at hrest
      have hmem : ∀ other, other ∈ shrunk.fields.names ↔ other ∈ m.fields.names ∧ other ≠ name := by
        intro other
        rw [hshrunk, Named.names_erase, List.mem_filter, decide_eq_true_eq]
      constructor
      · rintro ⟨u, hfirst, h⟩
        obtain ⟨m', hm', hname, hkey, hindexed, rfl⟩ := applyRemoveField_iff.mp hfirst
        obtain rfl := Option.some.inj (hm.symm.trans hm')
        obtain ⟨hnodup, hnames, hkeys, hindexes, ht⟩ := hrest.mp h
        refine ⟨List.nodup_cons.mpr ⟨fun hin => ?_, hnodup⟩,
          List.forall_mem_cons.mpr ⟨hname, fun other hother => ((hmem other).mp
            (hnames other hother)).1⟩, ?_, List.forall_mem_cons.mpr ⟨hindexed, hindexes⟩, ht⟩
        · exact ((hmem name).mp (hnames name hin)).2 rfl
        · rw [List.mem_cons, not_or]
          exact ⟨hkey, hkeys⟩
      · rintro ⟨hnodup, hnames, hkeys, hindexes, ht⟩
        obtain ⟨hnot, hnodup⟩ := List.nodup_cons.mp hnodup
        obtain ⟨hname, hnames⟩ := List.forall_mem_cons.mp hnames
        obtain ⟨hindexed, hindexes⟩ := List.forall_mem_cons.mp hindexes
        rw [List.mem_cons, not_or] at hkeys
        obtain ⟨hkey, hkeys⟩ := hkeys
        refine ⟨s.withModel shrunk, applyRemoveField_iff.mpr ⟨m, hm, hname, hkey, hindexed, rfl⟩,
          hrest.mpr ⟨hnodup, fun other hother => (hmem other).mpr ⟨hnames other hother, ?_⟩, hkeys,
            hindexes, ht⟩⟩
        rintro rfl
        exact hnot hother

/-- Fields are added exactly if they are new, different and no keys. -/
theorem applyAddFields_iff {fields : Fields} (hs : s.Sound) :
    apply (.addFields name fields) s = .ok () t ↔ ∃ m, s.model? name = some m ∧
      fields.names.Nodup ∧ List.Disjoint m.fields.names fields.names ∧
      (∀ entry ∈ fields, entry.2.isPrimaryKey = false) ∧
      t = s.withModel { m with fields := m.fields ++ fields } := by
  constructor
  · intro h
    obtain ⟨m, s₁, hget, h⟩ := bind_eq_ok.mp h
    obtain ⟨hm, rfl⟩ := getModel_eq_ok.mp hget
    obtain rfl := hs.name_eq name m hm
    exact ⟨m, hm, (forM_applyAddField_iff hs.ordered hm).mp h⟩
  · rintro ⟨m, hm, h⟩
    obtain rfl := hs.name_eq name m hm
    exact bind_eq_ok.mpr ⟨m, s, getModel_eq_ok.mpr ⟨hm, rfl⟩,
      (forM_applyAddField_iff hs.ordered hm).mpr h⟩

/-- Fields are removed exactly if they are there, different, not the key and covered by no index. -/
theorem applyRemoveFields_iff {names : List String} (hs : s.Sound) :
    apply (.removeFields name names) s = .ok () t ↔ ∃ m, s.model? name = some m ∧
      names.Nodup ∧ (∀ name ∈ names, name ∈ m.fields.names) ∧ m.key ∉ names ∧
      (∀ name ∈ names, m.isIndexed name = false) ∧
      t = s.withModel { m with fields := m.fields.filter fun entry => entry.1 ∉ names } := by
  constructor
  · intro h
    obtain ⟨m, s₁, hget, h⟩ := bind_eq_ok.mp h
    obtain ⟨hm, rfl⟩ := getModel_eq_ok.mp hget
    obtain rfl := hs.name_eq name m hm
    exact ⟨m, hm, (forM_applyRemoveField_iff hs.ordered hm).mp h⟩
  · rintro ⟨m, hm, h⟩
    obtain rfl := hs.name_eq name m hm
    exact bind_eq_ok.mpr ⟨m, s, getModel_eq_ok.mpr ⟨hm, rfl⟩,
      (forM_applyRemoveField_iff hs.ordered hm).mpr h⟩

/-- What an operation that is not refused makes of a sound state. -/
theorem applies_of_ok (hs : s.Sound) (h : operation.apply s = .ok () t) :
    operation.Applies s t := by
  cases operation with
  | createModel name table fields =>
      obtain ⟨hnone, m, hparts, rfl⟩ := applyCreate_iff.mp h
      exact .createModel hnone hparts
  | deleteModel name =>
      obtain ⟨m, hm, rfl⟩ := applyDelete_iff.mp h
      exact .deleteModel hm
  | addFields name fields =>
      obtain ⟨m, hm, hnames, hapart, -, rfl⟩ := (applyAddFields_iff hs).mp h
      obtain rfl := hs.name_eq name m hm
      exact .change hm (.addFields hnames hapart)
  | removeFields name names =>
      obtain ⟨m, hm, hnames, hmem, -, hindexed, rfl⟩ := (applyRemoveFields_iff hs).mp h
      obtain rfl := hs.name_eq name m hm
      exact .change hm (.removeFields hnames hmem hindexed)
  | addIndex name index fields =>
      obtain ⟨m, hm, hnone, -, hfields, rfl⟩ := applyAddIndex_iff.mp h
      obtain rfl := hs.name_eq name m hm
      exact .change hm (.addIndex hnone hfields)
  | removeIndex name index =>
      obtain ⟨m, hm, hindex, rfl⟩ := applyRemoveIndex_iff.mp h
      obtain rfl := hs.name_eq name m hm
      exact .change hm (.removeIndex hindex)

/-- The fields that an operation brings have different names, being read from a map. -/
def FieldsDiffer : Operation → Prop
  | createModel _ _ fields | addFields _ fields => fields.names.Nodup
  | _ => True

instance : (operation : Operation) → Decidable operation.FieldsDiffer
  | createModel _ _ fields => inferInstanceAs (Decidable fields.names.Nodup)
  | addFields _ fields => inferInstanceAs (Decidable fields.names.Nodup)
  | deleteModel _ | removeFields .. | addIndex .. | removeIndex .. =>
    inferInstanceAs (Decidable True)

end Operation

/-- A changed model is sound. -/
theorem Model.Changes.sound (h : m.Changes operation m') (hm : m.Sound) : m'.Sound := by
  cases h with
  | @addFields fields hnames hapart =>
      refine ⟨?_, hm.indexes, fun i covered hi field hfield => ?_⟩
      · rw [Named.names_append, List.nodup_append']
        exact ⟨hm.fields, hnames, hapart⟩
      · rw [Named.names_append]
        exact List.mem_append_left _ (hm.indexed i covered hi field hfield)
  | @removeFields names _ _ hindexed =>
      refine ⟨?_, hm.indexes, fun i covered hi field hfield => ?_⟩
      · exact hm.fields.sublist (List.filter_sublist.map _)
      · obtain ⟨entry, hentry, rfl⟩ := List.mem_map.mp (hm.indexed i covered hi field hfield)
        refine List.mem_map_of_mem (List.mem_filter.mpr ⟨hentry, ?_⟩)
        rw [decide_eq_true_eq]
        -- a field that an index is over cannot be removed
        intro hremoved
        have hnot := hindexed _ hremoved
        rw [Model.isIndexed, List.any_eq_false] at hnot
        exact hnot (i, covered) (Named.mem_of_get? hi) (by simpa using hfield)
  | @addIndex index fields hnone hfields =>
      refine ⟨hm.fields, hm.indexes.insert, fun i covered hi field hfield => ?_⟩
      rw [Named.get?_insert] at hi
      split at hi
      · cases hi
        exact hfields field hfield
      · exact hm.indexed i covered hi field hfield
  | @removeIndex index _ =>
      refine ⟨hm.fields, hm.indexes.erase, fun i covered hi field hfield => ?_⟩
      rw [Named.get?_erase] at hi
      split at hi
      · cases hi
      · exact hm.indexed i covered hi field hfield

theorem Operation.Applies.sound (h : operation.Applies s t) (hs : s.Sound)
    (hfields : operation.FieldsDiffer) : t.Sound := by
  cases h with
  | createModel hnone hparts =>
      obtain ⟨key, -, rfl⟩ := Model.ofParts_eq_ok hparts
      exact hs.withModel ⟨hfields, Named.ordered_nil, by simp⟩
  | deleteModel hm => exact hs.withoutModel
  | change hm hchange => exact hs.withModel (hchange.sound (hs.model _ _ hm))

end SchemaHistory
