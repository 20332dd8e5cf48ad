import SchemaHistory.Proofs.MigratorRuns
import SchemaHistory.Proofs.RoundTrip

/-!
# Steps and replay

The steps of a migration are found before it is carried out, and the state is taken on to the next
one after that, by a loop of its own. The two loops go together (`AppSchema.next_eq`): the migration
is refused where its steps are, for the same reason, and it leads where they end. So once the steps
of a migration have been carried out, the state can be taken on (`Migrator.perform_eq`).
-/

namespace SchemaHistory

namespace Change

/-! ### Changes by their outcome -/

variable {α β : Type}

theorem outcome_bind (change : Change α) (next : α → Change β) (s : AppSchema) :
    outcome (change >>= next) s = (do
      let (a, t) ← outcome change s
      outcome (next a) t) := by
  show outcome (EStateM.bind change next) s = _
  unfold outcome EStateM.bind
  cases change s <;> rfl

/-- The context of a migration wraps the error and nothing else. -/
theorem outcome_inContext (migration : Migration) (change : Change α) (s : AppSchema) :
    outcome (AppSchema.inContext migration change) s
      = (outcome change s).mapError (.during migration.app migration.name) := by
  unfold outcome AppSchema.inContext EStateM.adaptExcept
  cases change s <;> rfl

end Change

namespace AppSchema

/-! ### Steps end where the replay does -/

variable {s : AppSchema} {operation : Operation} {operations : List Operation}
  {migration : Migration}
  {taken : List Step}

/-- The state that some steps end in: the one after the last of them, or where they begin if there
are none. -/
def endOf (s : AppSchema) (taken : List Step) : AppSchema :=
  match taken.getLast? with
  | some step => step.after
  | none => s

/-- Steps end where the last of them does. -/
theorem endOf_cons (step : Step) (rest : List Step) :
    s.endOf (step :: rest) = step.after.endOf rest := by
  unfold endOf
  rw [List.getLast?_cons]
  cases rest.getLast? <;> rfl

/-- Applying operations one after the other leads where their steps end. -/
theorem outcome_forM : Change.outcome
      (operations.forM fun operation => inContext migration operation.apply) s
    = ((s.stepsOf operations).map fun taken => ((), s.endOf taken)).mapError
      (.during migration.app migration.name) := by
  induction operations generalizing s with
  | nil => rfl
  | cons operation rest ih =>
      show Change.outcome (inContext migration operation.apply >>= fun _ =>
        rest.forM fun operation => inContext migration operation.apply) s = _
      rw [Change.outcome_bind, Change.outcome_inContext, stepsOf]
      cases Change.outcome operation.apply s with
      | error e => rfl
      | ok answer =>
          obtain ⟨⟨⟩, t⟩ := answer
          show Change.outcome _ t = _
          rw [ih]
          show _ = Except.mapError _ (Except.map _ (t.stepsOf rest >>= fun later =>
            pure (⟨s, t⟩ :: later)))
          cases t.stepsOf rest with
          | error e => rfl
          | ok later =>
              show Except.ok ((), t.endOf later) = Except.ok ((), s.endOf (⟨s, t⟩ :: later))
              rw [endOf_cons]

/-- A migration of the app leads to the end of its steps and is refused where they are. -/
theorem next_eq (happ : migration.app = s.app) : s.next migration = match s.steps migration with
    | .ok taken => .ok ((s.endOf taken).recorded migration)
    | .error e => .error (.during migration.app migration.name e) := by
  have hadvance : Change.outcome (advance migration) s = Change.outcome (do
      migration.operations.forM fun operation => inContext migration operation.apply
      modify fun state => { state with migrations := state.migrations ++ [migration.name] }) s := by
    show Change.outcome (if migration.app ≠ s.app then _ else _) s = _
    rw [if_neg (not_not.mpr happ)]
  unfold next
  rw [hadvance, Change.outcome_bind, outcome_forM, steps]
  cases s.stepsOf migration.operations <;> rfl

/-- The steps of operations lie end to end, and each is what its operation makes of the state. -/
theorem endToEnd_of_stepsOf (h : s.stepsOf operations = .ok taken) :
    List.Forall₂ (fun operation step => operation.apply step.before = .ok () step.after)
      operations taken ∧
      taken.map (·.before) ++ [s.endOf taken] = s :: taken.map (·.after) := by
  induction operations generalizing s taken with
  | nil =>
      cases h
      exact ⟨.nil, rfl⟩
  | cons operation rest ih =>
      obtain ⟨⟨⟨⟩, t⟩, hstep, h⟩ := Except.bind_eq_ok.mp h
      obtain ⟨later, hlater, h⟩ := Except.bind_eq_ok.mp h
      cases h
      obtain ⟨happlied, hends⟩ := ih hlater
      refine ⟨.cons (Change.outcome_eq_ok.mp hstep) happlied, ?_⟩
      rw [endOf_cons, List.map_cons, List.map_cons, List.cons_append, hends]

end AppSchema

namespace Migrator

variable {σ : Type} (migrator : Migrator σ)

/-- Carries out the steps of a migration and records it. A dry run prints the statements instead. -/
def takeSteps (migration : Migration) (steps : Migration.Steps) : Run σ Unit :=
  if migrator.dryRun then
    migrator.emitStatements fun recorder => Migration.forwardAll recorder steps
  else if migrator.backend.dialect.capabilities.transactional then
    migrator.inTransaction do
      Migration.forwardAll migrator.backend steps
      migrator.record migration
  else
    migrator.applyStepwise migration steps

/-- Once the steps have been carried out, the state is taken on to their end without another
check. -/
theorem perform_eq {s : AppSchema} {migration : Migration} (happ : migration.app = s.app) :
    migrator.perform s migration = (do
      Run.report .info "Applying migration" migration []
      let taken ← Run.ofExcept (s.steps migration)
      migrator.takeSteps migration (migration.withSteps taken)
      Run.report .info "Migration applied successfully" migration []
      return (s.endOf taken).recorded migration) := by
  unfold perform
  congr 1
  funext _
  rw [AppSchema.next_eq happ]
  cases s.steps migration with
  | error e => rfl
  | ok taken =>
      rw [Run.ofExcept_ok_bind, Run.ofExcept_ok_bind]
      unfold takeSteps
      dsimp only
      split
      · rfl
      · split <;> rfl

end Migrator

namespace AppSchema

/-! ### Steps and the next state -/

open Operation

/-- Let a migration belong to the app of a state. Its steps can be found exactly if the state can be
taken on to the next one, and both are refused for the same reason, which is given the context of
the migration in one of the two. There is a step for each operation, each begins where the one
before it ends and the first at the state, and the next state is their end, with the name of the
migration recorded. So in carrying the migration out nothing can fail any more once its steps have
been taken. -/
theorem steps_go_with_replay {s : AppSchema} {migration : Migration}
    (happ : migration.app = s.app) :
    (match s.steps migration with
      | .ok taken => s.next migration = .ok ((s.endOf taken).recorded migration) ∧
          List.Forall₂ (fun operation step => operation.apply step.before = .ok () step.after)
            migration.operations taken ∧
          taken.map (·.before) ++ [s.endOf taken] = s :: taken.map (·.after)
      | .error e => s.next migration = .error (.during migration.app migration.name e)) ∧
    ∀ {σ : Type} (migrator : Migrator σ), migrator.perform s migration = (do
      Run.report .info "Applying migration" migration []
      let taken ← Run.ofExcept (s.steps migration)
      migrator.takeSteps migration (migration.withSteps taken)
      Run.report .info "Migration applied successfully" migration []
      return (s.endOf taken).recorded migration) := by
  refine ⟨?_, fun migrator => migrator.perform_eq happ⟩
  have hnext := next_eq happ
  cases hsteps : s.steps migration with
  | error e => rwa [hsteps] at hnext
  | ok taken =>
      rw [hsteps] at hnext
      exact ⟨hnext, endToEnd_of_stepsOf hsteps⟩

def indexedRanks : Migration where
  app := "notes"
  name := "0002_rank"
  operations := [rankAdded, .addIndex "Note" "note_rank" ["rank"]]

def indexWithoutRanks : Migration where
  app := "notes"
  name := "0002_index"
  operations := [.addIndex "Note" "note_text" ["text"], .addIndex "Note" "note_rank" ["rank"]]

/-- The ranks are added in two steps, and an index over ranks that are not there is refused. -/
theorem ranks_indexed_in_steps : indexedRanks.app = noteState.app ∧
    (∃ taken, noteState.steps indexedRanks = .ok taken ∧ taken.length = 2 ∧
      noteState.next indexedRanks = .ok ((noteState.endOf taken).recorded indexedRanks) ∧
      taken.map (·.before) ++ [noteState.endOf taken] = noteState :: taken.map (·.after)) ∧
    indexWithoutRanks.app = noteState.app ∧
    ∃ e, noteState.steps indexWithoutRanks = .error e ∧
      noteState.next indexWithoutRanks = .error (.during "notes" "0002_index" e) := by
  obtain ⟨htaken, -⟩ := steps_go_with_replay (show indexedRanks.app = noteState.app from rfl)
  have hsteps : noteState.steps indexedRanks = .ok _ := rfl
  rw [hsteps] at htaken
  obtain ⟨hrefused, -⟩ := steps_go_with_replay (show indexWithoutRanks.app = noteState.app from rfl)
  have hfails : noteState.steps indexWithoutRanks = .error _ := rfl
  rw [hfails] at hrefused
  exact ⟨rfl, ⟨_, hsteps, rfl, htaken.1, htaken.2.2⟩, rfl, _, hfails, hrefused⟩

end AppSchema

end SchemaHistory
