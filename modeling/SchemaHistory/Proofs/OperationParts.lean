import SchemaHistory.Proofs.DeclaredModels

/-!
# Operations on several fields

An operation on several fields is its `parts`, one for each field, carried out one after the other
(`Operation.apply_eq_forM_parts`). A part that is refused leaves the state as it is, so an operation
that is refused leaves what the parts before the refused one have made
(`Operation.exists_refused_part`), and that is another state than before if there were any
(`Operation.ne_of_forM_parts`).
-/

namespace SchemaHistory

/-! ### Where a loop fails -/

/-- A loop that fails has gone well up to the round that fails. -/
theorem exists_split_of_forM_eq_error {ε σ α : Type} {f : α → EStateM ε σ Unit} {xs : List α}
    {s t : σ} {e : ε} (h : xs.forM f s = .error e t) : ∃ done x rest u, xs = done ++ x :: rest ∧
      done.forM f s = .ok () u ∧ f x u = .error e t := by
  induction xs generalizing s with
  | nil => exact absurd h pure_ne_error
  | cons x xs ih =>
      rcases bind_eq_error.mp h with hx | ⟨⟨⟩, u, hx, hxs⟩
      · exact ⟨[], x, xs, s, rfl, forM_nil_eq_ok.mpr rfl, hx⟩
      · obtain ⟨done, y, rest, v, rfl, hdone, hy⟩ := ih hxs
        exact ⟨x :: done, y, rest, v, rfl, forM_cons_eq_ok.mpr ⟨u, hx, hdone⟩, hy⟩

/-! ### Changes that leave no trace where they fail -/

/-- Where the change fails, it leaves the model as it is. -/
def Revision.Sparing {α : Type} (revision : Revision α) : Prop :=
  ∀ m e m', revision m = .error e m' → m' = m

/-- A revision with a guard is refused by it, or goes on. -/
theorem Revision.guard_eq_error {α β : Type} {c : Prop} [Decidable c] {e e' : SchemaError}
    {k : β → Revision α} {revision : Revision α} {m m' : Model} :
    (if c then throw e >>= k else revision) m = .error e' m' ↔
      c ∧ e = e' ∧ m = m' ∨ ¬c ∧ revision m = .error e' m' := by
  by_cases h : c
  · simp only [h, if_true, true_and, not_true_eq_false, false_and, or_false]
    show EStateM.Result.error e m = .error e' m' ↔ _
    rw [EStateM.Result.error.injEq]
  · simp [h]

theorem Revision.require_eq_error {α : Type} {e e' : SchemaError} {found : Option α}
    {m m' : Model} :
    Revision.require e found m = .error e' m' ↔ found = none ∧ e = e' ∧ m = m' := by
  cases found with
  | some a => exact ⟨nofun, nofun⟩
  | none => exact throw_eq_error.trans (iff_and_self.mpr fun _ => rfl)

theorem Revision.sparing_refuseAny {α : Type} (e : α → SchemaError) (found : Option α) :
    (Revision.refuseAny e found).Sparing := by
  intro m e' m' h
  cases found with
  | some a => exact (EStateM.Result.error.inj h).2.symm
  | none => cases h

namespace Model

/-- Adding a field to a model is refused before anything is written. -/
theorem sparing_addField (name : String) (field : Field) : (addField name field).Sparing := by
  intro m e m' h
  rcases Revision.guard_eq_error.mp h with ⟨-, -, rfl⟩ | ⟨-, h⟩
  · rfl
  rcases Revision.guard_eq_error.mp h with ⟨-, -, rfl⟩ | ⟨-, h⟩
  · rfl
  · cases h

/-- Where there is no such field, removing it has changed nothing. -/
theorem sparing_removeField (name : String) : (removeField name).Sparing := by
  intro m e m' h
  rcases Revision.guard_eq_error.mp h with ⟨-, -, rfl⟩ | ⟨-, h⟩
  · rfl
  rcases Revision.guard_eq_error.mp h with ⟨-, -, rfl⟩ | ⟨-, h⟩
  · rfl
  -- the field was erased first, which does nothing here
  obtain ⟨hnone, -, rfl⟩ := Revision.require_eq_error.mp h
  rw [Named.erase_of_get?_eq_none hnone]

theorem sparing_addIndex (name : String) (fields : List String) :
    (addIndex name fields).Sparing := by
  intro m e m' h
  rcases Revision.guard_eq_error.mp h with ⟨-, -, rfl⟩ | ⟨-, h⟩
  · rfl
  rcases Revision.guard_eq_error.mp h with ⟨-, -, rfl⟩ | ⟨-, h⟩
  · rfl
  rcases bind_eq_error.mp h with h | ⟨⟨⟩, u, -, h⟩
  · exact Revision.sparing_refuseAny _ _ m e m' h
  · cases h

/-- Where there is no such index, removing it has changed nothing. -/
theorem sparing_removeIndex (name : String) : (removeIndex name).Sparing := by
  intro m e m' h
  obtain ⟨hnone, -, rfl⟩ := Revision.require_eq_error.mp h
  rw [Named.erase_of_get?_eq_none hnone]

end Model

namespace Change

variable {α β : Type} {change : Change α} {next : α → Change β}

/-- Where the change fails, it leaves a state that is sound as it is. -/
def Sparing (change : Change α) : Prop :=
  ∀ (s : AppSchema) (e : MigrationError) (t : AppSchema), s.Sound → change s = .error e t → t = s

/-- The change leaves the state as it is. -/
def Reads (change : Change α) : Prop :=
  (∀ s e t, change s = .error e t → t = s) ∧ ∀ s a t, change s = .ok a t → t = s

/-- Reading and then a change that spares the state at a refusal is such a change. -/
theorem Reads.bind (h : change.Reads) (hnext : ∀ a, (next a).Sparing) :
    (change >>= next).Sparing := by
  intro s e t hs herror
  rcases bind_eq_error.mp herror with hchange | ⟨a, u, hchange, hfails⟩
  · exact h.1 s e t hchange
  · obtain rfl := h.2 s a u hchange
    exact hnext a u e t hs hfails

theorem reads_get : (get : Change AppSchema).Reads :=
  ⟨fun _ _ _ => nofun, fun _ _ _ h => (get_eq_ok.mp h).2.symm⟩

theorem reads_ofExcept (answer : Except SchemaError α) : (ofExcept answer).Reads := by
  cases answer with
  | ok a => exact ⟨fun _ _ _ => nofun, fun _ _ _ h => (pure_eq_ok.mp h).2.symm⟩
  | error e => exact ⟨fun _ _ _ h => (throw_eq_error.mp h).2.symm, fun _ _ _ => nofun⟩

theorem sparing_pure (a : α) : (pure a : Change α).Sparing := fun _ _ _ _ => nofun

theorem sparing_modify (f : AppSchema → AppSchema) : (modify f : Change Unit).Sparing :=
  fun _ _ _ _ => nofun

/-- The state is written once there is an answer. -/
theorem sparing_write (answer : Except SchemaError α) (write : α → AppSchema → AppSchema) :
    (ofExcept answer >>= fun a => modify (write a) : Change Unit).Sparing :=
  (reads_ofExcept answer).bind fun a => sparing_modify (write a)

end Change

namespace Operation

open Change

variable {s t : AppSchema} {e : MigrationError} {operation part refused : Operation}
  {done rest : List Operation}

/-- A model is taken from the state, or its absence is the fault. -/
theorem getModel_apply (name : String) (s : AppSchema) :
    getModel name s = match s.model? name with
      | some m => .ok m s
      | none => .error (s.fault (.unknownModel name)) s := by
  show (match s.model? name with
    | some m => (pure m : Change Model)
    | none => refuse (.unknownModel name)) s = _
  cases s.model? name <;> rfl

theorem reads_getModel (name : String) : (getModel name).Reads := by
  constructor
  · intro s e t h
    rw [getModel_apply] at h
    split at h
    · cases h
    · exact (EStateM.Result.error.inj h).2.symm
  · intro s m t h
    exact (getModel_eq_ok.mp h).2.symm

/-- What begins by looking for a model may be preceded by looking for it. -/
theorem getModel_bind_self {α β : Type} (name : String) (next : Model → Change α)
    (k : α → Change β) :
    (getModel name >>= fun _ => (getModel name >>= next) >>= k) =
      (getModel name >>= next) >>= k := by
  rw [bind_assoc]
  funext s
  show EStateM.bind _ _ s = EStateM.bind _ _ s
  unfold EStateM.bind
  rw [getModel_apply]
  cases hm : s.model? name with
  | none => rfl
  | some m =>
      show EStateM.bind _ _ s = _
      unfold EStateM.bind
      rw [getModel_apply, hm]

/-- A check spares the state if what follows it does. -/
theorem sparing_guard {α β : Type} {c : Prop} [Decidable c] {fault : StateFault}
    {next : β → Change α}
    {change : Change α} (h : change.Sparing) :
    (if c then refuse fault >>= next else change).Sparing := by
  split
  · intro s e t _ herror
    exact (EStateM.Result.error.inj herror).2.symm
  · exact h

/-- What a change that spares its model leaves of it goes back to its place. -/
theorem sparing_revise {α β : Type} {name : String} {c : Model → Prop} [∀ m, Decidable (c m)]
    {fault : StateFault} {next : Model → β → Change Unit} {revision : Revision α}
    (h : revision.Sparing) : (getModel name >>= fun m =>
      if c m then refuse fault >>= next m else revise m revision : Change Unit).Sparing := by
  intro s e t hs herror
  rcases bind_eq_error.mp herror with hget | ⟨m, u, hget, herror⟩
  · exact (reads_getModel name).1 s e t hget
  obtain ⟨hm, rfl⟩ := getModel_eq_ok.mp hget
  split at herror
  · exact (EStateM.Result.error.inj herror).2.symm
  · unfold revise at herror
    cases hrevision : revision m with
    | ok a m' =>
        rw [hrevision] at herror
        cases herror
    | error e' m' =>
        obtain rfl := h m e' m' hrevision
        rw [hrevision] at herror
        exact (EStateM.Result.error.inj herror).2.symm.trans (hs.withModel_self hm)

/-! ### The parts -/

/-- The operations on one field that an operation on several fields consists of. Any other operation
is its only part. -/
def parts : Operation → List Operation
  | addFields model (first :: rest) => (first :: rest).map fun field => addFields model [field]
  | removeFields model (first :: rest) => (first :: rest).map fun field =>
    removeFields model [field]
  | operation => [operation]

/-- Fields are added one at a time. -/
theorem apply_addFields_cons (model : String) (entry : String × Field) (rest : Fields) :
    (addFields model (entry :: rest)).apply = (do
      applyAddField model entry.1 entry.2
      rest.forM fun entry => applyAddField model entry.1 entry.2) :=
  getModel_bind_self model _ _

theorem apply_removeFields_cons (model name : String) (rest : List String) :
    (removeFields model (name :: rest)).apply = (do
      applyRemoveField model name
      rest.forM (applyRemoveField model)) :=
  getModel_bind_self model _ _

theorem apply_addFields_singleton (model : String) (entry : String × Field) :
    (addFields model [entry]).apply = applyAddField model entry.1 entry.2 := by
  rw [apply_addFields_cons]
  exact bind_pure _

theorem apply_removeFields_singleton (model name : String) :
    (removeFields model [name]).apply = applyRemoveField model name := by
  rw [apply_removeFields_cons]
  exact bind_pure _

/-- An operation is its parts, carried out one after the other. -/
theorem apply_eq_forM_parts (operation : Operation) : operation.apply =
    operation.parts.forM apply := by
  have hsingle : ∀ operation : Operation, operation.apply = [operation].forM apply :=
    fun operation => (bind_pure operation.apply).symm
  have hmap : ∀ {α : Type} (part : α → Operation) (xs : List α),
      (xs.map part).forM apply = xs.forM fun x => (part x).apply := by
    intro α part xs
    induction xs with
    | nil => rfl
    | cons x rest ih =>
        show ((part x).apply >>= fun _ => (rest.map part).forM apply) = _
        rw [ih]
        rfl
  cases operation with
  | addFields model fields =>
      cases fields with
      | nil => exact hsingle _
      | cons first rest =>
          rw [parts, hmap, apply_addFields_cons]
          simp only [apply_addFields_singleton]
          rfl
  | removeFields model names =>
      cases names with
      | nil => exact hsingle _
      | cons first rest =>
          rw [parts, hmap, apply_removeFields_cons]
          simp only [apply_removeFields_singleton]
          rfl
  | _ => exact hsingle _

theorem model_of_mem_parts (h : part ∈ operation.parts) : part.model = operation.model := by
  unfold parts at h
  split at h
  · obtain ⟨entry, -, rfl⟩ := List.mem_map.mp h
    rfl
  · obtain ⟨name, -, rfl⟩ := List.mem_map.mp h
    rfl
  · rw [List.mem_singleton.mp h]

/-- The parts of an operation with different fields have different fields. -/
theorem fieldsDiffer_of_mem_parts (h : part ∈ operation.parts) (hfields : operation.FieldsDiffer) :
    part.FieldsDiffer := by
  unfold parts at h
  split at h
  · obtain ⟨entry, -, rfl⟩ := List.mem_map.mp h
    exact List.nodup_singleton _
  · obtain ⟨name, -, rfl⟩ := List.mem_map.mp h
    trivial
  · rwa [List.mem_singleton.mp h]

/-! ### Parts that are refused -/

/-- A part that is refused leaves the state as it is. -/
theorem sparing_part (h : part ∈ operation.parts) : part.apply.Sparing := by
  unfold parts at h
  split at h
  · obtain ⟨entry, -, rfl⟩ := List.mem_map.mp h
    rw [apply_addFields_singleton]
    exact sparing_revise (Model.sparing_addField _ _)
  · obtain ⟨name, -, rfl⟩ := List.mem_map.mp h
    rw [apply_removeFields_singleton]
    exact sparing_revise (Model.sparing_removeField _)
  · next hadd hremove =>
      obtain rfl := List.mem_singleton.mp h
      cases part with
      | createModel name table fields =>
          exact reads_get.bind fun _ => sparing_guard (sparing_write _ _)
      | deleteModel name => exact (reads_getModel name).bind fun _ => sparing_modify _
      | addFields model fields =>
          cases fields with
          | nil => exact (reads_getModel model).bind fun _ => sparing_pure _
          | cons first rest => exact absurd rfl (hadd model first rest)
      | removeFields model names =>
          cases names with
          | nil => exact (reads_getModel model).bind fun _ => sparing_pure _
          | cons first rest => exact absurd rfl (hremove model first rest)
      | addIndex model index fields => exact sparing_revise (Model.sparing_addIndex _ _)
      | removeIndex model index => exact sparing_revise (Model.sparing_removeIndex _)

/-- The operation adds or removes at least one field. -/
def OnFields : Operation → Prop
  | addFields _ fields => fields ≠ []
  | removeFields _ names => names ≠ []
  | _ => False

/-- Some of the first parts of an operation, but not all, are those of an operation on its first
fields. -/
theorem exists_parts_eq (hparts : operation.parts = done ++ refused :: rest) (hdone : done ≠ []) :
    ∃ first : Operation, first.OnFields ∧ done = first.parts := by
  unfold parts at hparts
  split at hparts
  · next model _ _ =>
      obtain ⟨fields, _, -, rfl, -⟩ := List.map_eq_append_iff.mp hparts
      cases fields with
      | nil => exact absurd rfl hdone
      | cons entry fields => exact ⟨addFields model (entry :: fields), List.cons_ne_nil _ _, rfl⟩
  · next model _ _ =>
      obtain ⟨names, _, -, rfl, -⟩ := List.map_eq_append_iff.mp hparts
      cases names with
      | nil => exact absurd rfl hdone
      | cons name names => exact ⟨removeFields model (name :: names), List.cons_ne_nil _ _, rfl⟩
  · cases done with
    | nil => exact absurd rfl hdone
    | cons part done => simp at hparts

/-- The parts before the last one are on one field each. -/
theorem fieldsDiffer_of_earlier (hparts : operation.parts = done ++ refused :: rest) :
    ∀ part ∈ done, part.FieldsDiffer := by
  intro part hpart
  obtain ⟨first, hfields, rfl⟩ := exists_parts_eq hparts (List.ne_nil_of_mem hpart)
  cases first with
  | addFields model fields =>
      obtain ⟨entry, rest, rfl⟩ := List.exists_cons_of_ne_nil hfields
      obtain ⟨field, -, rfl⟩ := List.mem_map.mp hpart
      exact List.nodup_singleton _
  | removeFields model names =>
      obtain ⟨name, rest, rfl⟩ := List.exists_cons_of_ne_nil hfields
      obtain ⟨field, -, rfl⟩ := List.mem_map.mp hpart
      trivial
  | _ => exact hfields.elim

/-- Operations that are accepted one after the other make a sound state of a sound one. -/
theorem sound_of_forM (hs : s.Sound) (hfields : ∀ operation ∈ done, operation.FieldsDiffer)
    (h : done.forM apply s = .ok () t) : t.Sound := by
  induction done generalizing s with
  | nil =>
      obtain rfl := forM_nil_eq_ok.mp h
      exact hs
  | cons operation done ih =>
      obtain ⟨hoperation, hrest⟩ := List.forall_mem_cons.mp hfields
      obtain ⟨u, happly, h⟩ := forM_cons_eq_ok.mp h
      exact ih ((applies_of_ok hs happly).sound hs hoperation) hrest h

/-- An operation is refused at one of its parts, after those before it have been accepted. What
these have made of the state is left. -/
theorem exists_refused_part (hs : s.Sound) (h : operation.apply s = .error e t) :
    ∃ done refused rest, operation.parts = done ++ refused :: rest ∧
      done.forM apply s = .ok () t ∧ refused.apply t = .error e t := by
  rw [apply_eq_forM_parts] at h
  obtain ⟨done, refused, rest, u, hparts, hdone, hrefused⟩ := exists_split_of_forM_eq_error h
  have hmem : refused ∈ operation.parts := by
    rw [hparts]
    exact List.mem_append_right _ List.mem_cons_self
  have hsound := sound_of_forM hs (fieldsDiffer_of_earlier hparts) hdone
  obtain rfl := sparing_part hmem u e t hsound hrefused
  exact ⟨done, refused, rest, hparts, hdone, hrefused⟩

/-! ### Parts that are accepted -/

/-- With fields more or less a model is another one. -/
theorem Edits.ne {app : String} {r r' : Option Model} (h : operation.Edits app r r')
    (hfields : operation.OnFields) : r ≠ r' := by
  intro hsame
  cases h with
  | @addFields _ m fields _ _ _ =>
      have hlist : m.fields = m.fields ++ fields := congrArg Model.fields (Option.some.inj hsame)
      exact hfields (List.self_eq_append_right.mp hlist)
  | @removeFields _ m names _ hnames _ _ =>
      have hlist : m.fields = m.fields.filter fun entry => entry.1 ∉ names :=
        congrArg Model.fields (Option.some.inj hsame)
      obtain ⟨name, hname⟩ := List.exists_mem_of_ne_nil names hfields
      obtain ⟨entry, hentry, rfl⟩ := List.mem_map.mp (hnames name hname)
      rw [hlist] at hentry
      exact of_decide_eq_true (List.mem_filter.mp hentry).2 hname
  | _ => exact hfields

/-- Parts that are accepted before one that is not change the state. -/
theorem ne_of_forM_parts (hs : s.Sound) (hparts : operation.parts = done ++ refused :: rest)
    (hdone : done ≠ []) (h : done.forM apply s = .ok () t) : t ≠ s := by
  obtain ⟨first, hfields, rfl⟩ := exists_parts_eq hparts hdone
  rw [← apply_eq_forM_parts] at h
  obtain ⟨r, hedit, rfl⟩ := (apply_eq_ok_iff hs).mp h
  intro hsame
  -- if the state were the same, so would be the model
  have hentry := congrArg (AppSchema.model? · first.model) hsame
  rw [AppSchema.model?_withEntry (hedit.name_eq fun m => hs.name_eq _ m), if_pos rfl] at hentry
  exact hedit.ne hfields hentry.symm

end Operation

end SchemaHistory
