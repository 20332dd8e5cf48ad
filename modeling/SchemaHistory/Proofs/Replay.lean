import SchemaHistory.Migrator
import SchemaHistory.Proofs.SchemaChanges

/-!
# Replaying migrations

A migration takes a state along a `Path` of steps, one for each of its operations. `AppSchema.next`
and `AppSchema.steps` both follow it (`forM_eq_ok_iff`, `next_of_path`), so one of them succeeds
where the other does, and what holds of one step holds along the way. In particular every state that
migrations lead to is sound (`replay_sound`), as long as no operation gives two fields one name.
-/

namespace SchemaHistory

/-- No operation of the migration gives two fields one name. -/
def Migration.FieldsDiffer (migration : Migration) : Prop :=
  ∀ operation ∈ migration.operations, operation.FieldsDiffer

instance (migration : Migration) : Decidable migration.FieldsDiffer :=
  inferInstanceAs (Decidable (∀ operation ∈ migration.operations, operation.FieldsDiffer))

namespace AppSchema

/-- The operations are applied one after the other, each taking the step it stands with. -/
inductive Path : AppSchema → Migration.Steps → AppSchema → Prop where
  | nil (s : AppSchema) : Path s [] s
  | cons {operation : Operation} {rest : Migration.Steps} {s t u : AppSchema} :
      operation.apply s = .ok () t → Path t rest u → Path s ((operation, ⟨s, t⟩) :: rest) u

variable {s t u : AppSchema} {migration : Migration} {migrations : List Migration}
  {steps : Migration.Steps} {operations : List Operation} {app : String}

/-- The steps of operations are a path from the state. -/
theorem path_of_stepsOf {taken : List Step} (h : s.stepsOf operations = .ok taken) :
    ∃ u, Path s (operations.zip taken) u ∧ (operations.zip taken).map (·.1) = operations := by
  induction operations generalizing s taken with
  | nil =>
      cases h
      exact ⟨s, Path.nil s, rfl⟩
  | cons operation rest ih =>
      obtain ⟨⟨⟨⟩, t⟩, hstep, h⟩ := Except.bind_eq_ok.mp h
      obtain ⟨later, hlater, h⟩ := Except.bind_eq_ok.mp h
      cases h
      obtain ⟨u, hpath, hmap⟩ := ih hlater
      refine ⟨u, Path.cons (Change.outcome_eq_ok.mp hstep) hpath, ?_⟩
      rw [List.zip_cons_cons, List.map_cons, hmap]

theorem stepsOf_of_path (h : Path s steps u) :
    s.stepsOf (steps.map (·.1)) = .ok (steps.map (·.2)) := by
  induction h with
  | nil => rfl
  | cons happly _ ih =>
      rw [List.map_cons, stepsOf, Change.outcome_eq_ok.mpr happly]
      show (stepsOf _ _ >>= _) = _
      rw [ih]
      rfl

/-- The loop of a migration follows the path. -/
theorem forM_eq_ok_iff :
    operations.forM (fun operation => inContext migration operation.apply) s = .ok () u ↔
      ∃ steps, Path s steps u ∧ steps.map (·.1) = operations := by
  induction operations generalizing s with
  | nil =>
      constructor
      · intro h
        obtain rfl := forM_nil_eq_ok.mp h
        exact ⟨[], Path.nil s, rfl⟩
      · rintro ⟨steps, hpath, hmap⟩
        obtain rfl := List.map_eq_nil_iff.mp hmap
        cases hpath
        exact forM_nil_eq_ok.mpr rfl
  | cons operation rest ih =>
      rw [forM_cons_eq_ok]
      constructor
      · rintro ⟨t, hstep, h⟩
        obtain ⟨steps, hpath, hmap⟩ := ih.mp h
        exact ⟨_, Path.cons (adaptExcept_eq_ok.mp hstep) hpath, by rw [List.map_cons, hmap]⟩
      · rintro ⟨steps, hpath, hmap⟩
        cases hpath with
        | nil => cases hmap
        | @cons _ steps _ t _ happly hpath =>
            cases hmap
            exact ⟨t, adaptExcept_eq_ok.mpr happly, ih.mpr ⟨steps, hpath, rfl⟩⟩

def recorded (s : AppSchema) (migration : Migration) : AppSchema :=
  { s with migrations := s.migrations ++ [migration.name] }

/-- The state after a migration of the same app is the end of the path of its operations, with the
migration recorded. -/
theorem next_eq_ok : s.next migration = .ok t ↔
    migration.app = s.app ∧ ∃ steps u, Path s steps u ∧ steps.map (·.1) = migration.operations ∧
      t = u.recorded migration := by
  have hadvance : s.next migration = .ok t ↔ advance migration s = .ok () t := by
    rw [next, Except.bind_eq_ok]
    constructor
    · rintro ⟨⟨⟨⟩, t'⟩, houtcome, h⟩
      cases h
      exact Change.outcome_eq_ok.mp houtcome
    · intro h
      exact ⟨((), t), Change.outcome_eq_ok.mpr h, rfl⟩
  rw [hadvance, advance, bind_eq_ok]
  constructor
  · rintro ⟨state, s₁, hget, h⟩
    obtain ⟨rfl, rfl⟩ := get_eq_ok.mp hget
    by_cases happ : migration.app = s.app
    · rw [if_neg (not_not.mpr happ)] at h
      obtain ⟨⟨⟩, u, hloop, h⟩ := bind_eq_ok.mp h
      obtain ⟨steps, hpath, hmap⟩ := forM_eq_ok_iff.mp hloop
      exact ⟨happ, steps, u, hpath, hmap, (modify_eq_ok.mp h).symm⟩
    · rw [if_pos happ] at h
      obtain ⟨state, s₁, -, h⟩ := bind_eq_ok.mp h
      obtain ⟨⟨⟩, s₂, hthrow, -⟩ := bind_eq_ok.mp h
      exact absurd hthrow throw_ne_ok
  · rintro ⟨happ, steps, u, hpath, hmap, rfl⟩
    refine ⟨s, s, get_eq_ok.mpr ⟨rfl, rfl⟩, ?_⟩
    rw [if_neg (not_not.mpr happ)]
    exact bind_eq_ok.mpr ⟨(), u, forM_eq_ok_iff.mpr ⟨steps, hpath, hmap⟩, modify_eq_ok.mpr rfl⟩

/-- Where the steps of a migration of the app can be taken, the migration can be applied. -/
theorem next_of_path (happ : migration.app = s.app) (h : Path s steps u)
    (hmap : steps.map (·.1) = migration.operations) :
    s.next migration = .ok (u.recorded migration) :=
  next_eq_ok.mpr ⟨happ, steps, u, h, hmap, rfl⟩

/-! ### The app of a state -/

theorem app_eq_of_forM {α : Type} {xs : List α} {f : α → Change Unit}
    (hf : ∀ x s t, f x s = .ok () t → t.app = s.app) (h : xs.forM f s = .ok () t) :
    t.app = s.app := by
  induction xs generalizing s with
  | nil => rw [forM_nil_eq_ok.mp h]
  | cons x xs ih =>
      obtain ⟨u, hx, hxs⟩ := forM_cons_eq_ok.mp h
      rw [ih hxs, hf x s u hx]

theorem app_eq_of_apply {operation : Operation} (h : operation.apply s = .ok () t) :
    t.app = s.app := by
  cases operation with
  | createModel name table fields =>
      obtain ⟨-, m, -, rfl⟩ := Operation.applyCreate_iff.mp h
      rfl
  | deleteModel name =>
      obtain ⟨m, -, rfl⟩ := Operation.applyDelete_iff.mp h
      rfl
  | addFields model fields =>
      obtain ⟨m, s₁, hget, h⟩ := bind_eq_ok.mp h
      obtain ⟨-, rfl⟩ := Operation.getModel_eq_ok.mp hget
      refine app_eq_of_forM (fun entry s t h => ?_) h
      obtain ⟨m, -, -, -, rfl⟩ := Operation.applyAddField_iff.mp h
      rfl
  | removeFields model names =>
      obtain ⟨m, s₁, hget, h⟩ := bind_eq_ok.mp h
      obtain ⟨-, rfl⟩ := Operation.getModel_eq_ok.mp hget
      refine app_eq_of_forM (fun name s t h => ?_) h
      obtain ⟨m, -, -, -, -, rfl⟩ := Operation.applyRemoveField_iff.mp h
      rfl
  | addIndex model index fields =>
      obtain ⟨m, -, -, -, -, rfl⟩ := Operation.applyAddIndex_iff.mp h
      rfl
  | removeIndex model index =>
      obtain ⟨m, -, -, rfl⟩ := Operation.applyRemoveIndex_iff.mp h
      rfl

theorem Path.app_eq (h : Path s steps u) : u.app = s.app := by
  induction h with
  | nil => rfl
  | cons happly _ ih => rw [ih, app_eq_of_apply happly]

theorem app_eq_of_next (h : s.next migration = .ok t) : t.app = s.app := by
  obtain ⟨-, steps, u, hpath, -, rfl⟩ := next_eq_ok.mp h
  exact hpath.app_eq

/-- A replayed state belongs to the app that was replayed. -/
theorem app_eq_of_replay (h : replay app migrations = .ok s) : s.app = app := by
  have hfrom : ∀ (migrations : List Migration) (s t : AppSchema),
      migrations.foldlM next s = .ok t → t.app = s.app := by
    intro migrations
    induction migrations with
    | nil =>
        intro s t h
        cases h
        rfl
    | cons migration rest ih =>
        intro s t h
        rw [List.foldlM_cons] at h
        obtain ⟨u, hnext, h⟩ := Except.bind_eq_ok.mp h
        rw [ih u t h, app_eq_of_next hnext]
  exact hfrom migrations { app } s h

/-! ### Sound states -/

theorem sound_init : Sound { app } := ⟨Named.ordered_nil, nofun, nofun⟩

theorem Sound.recorded (h : s.Sound) :
    (s.recorded migration).Sound := ⟨h.ordered, h.name_eq, h.model⟩

/-- Along a path the states are sound, if the fields of each operation differ. -/
theorem Path.sound (h : Path s steps u) (hs : s.Sound)
    (hfields : ∀ operation ∈ steps.map (·.1), operation.FieldsDiffer) : u.Sound := by
  induction h with
  | nil => exact hs
  | cons happly _ ih =>
      obtain ⟨hoperation, hrest⟩ := List.forall_mem_cons.mp hfields
      exact ih ((Operation.applies_of_ok hs happly).sound hs hoperation) hrest

theorem next_sound (hs : s.Sound) (hfields : migration.FieldsDiffer)
    (h : s.next migration = .ok t) :
    t.Sound := by
  obtain ⟨-, steps, u, hpath, hmap, rfl⟩ := next_eq_ok.mp h
  exact (hpath.sound hs (hmap ▸ hfields)).recorded

/-- By induction on the migrations, so is every state replayed from a sound one. -/
theorem replayFrom_sound (hs : s.Sound)
    (hfields : ∀ migration ∈ migrations, migration.FieldsDiffer)
    (h : migrations.foldlM next s = .ok t) : t.Sound := by
  induction migrations generalizing s with
  | nil =>
      cases h
      exact hs
  | cons migration rest ih =>
      rw [List.foldlM_cons] at h
      obtain ⟨u, hnext, h⟩ := Except.bind_eq_ok.mp h
      obtain ⟨hmigration, hrest⟩ := List.forall_mem_cons.mp hfields
      exact ih (next_sound hs hmigration hnext) hrest h

/-- Every state that migrations lead to is sound. -/
theorem replay_sound (hfields : ∀ migration ∈ migrations, migration.FieldsDiffer)
    (h : replay app migrations = .ok s) : s.Sound :=
  replayFrom_sound sound_init hfields h

/-- One migration more. -/
theorem replay_append_singleton : replay app (migrations ++ [migration]) = .ok t ↔
    ∃ s, replay app migrations = .ok s ∧ s.next migration = .ok t := by
  rw [replay, List.foldlM_append, Except.bind_eq_ok]
  constructor
  · rintro ⟨s, hs, h⟩
    rw [List.foldlM_cons, Except.bind_eq_ok] at h
    obtain ⟨u, hnext, h⟩ := h
    cases h
    exact ⟨s, hs, hnext⟩
  · rintro ⟨s, hs, h⟩
    refine ⟨s, hs, ?_⟩
    rw [List.foldlM_cons, h]
    rfl

end AppSchema

end SchemaHistory
