import SchemaHistory.Console
import SchemaHistory.Ledger
import SchemaHistory.Backend.Journal

/-!
# Applying migrations and rolling them back

The migrator takes the migrations of an app and carries them out on a database, keeping the ledger
in step. Where changes to tables are part of a transaction, a migration is one transaction.
Elsewhere a failure undoes the operations that are complete, as far as that goes. A dry run changes
nothing and prints the statements instead.
-/

namespace SchemaHistory

/-- A database, and the lines written to the console so far. -/
structure Transcript (σ : Type) where
  database : σ
  lines : Array Line := #[]

abbrev Run (σ : Type) := EStateM MigrationError (Transcript σ)

namespace Run

/-! ### Work that writes to the console -/

variable {σ α : Type}

def onDatabase (work : Work σ α) : Run σ α := fun transcript =>
  match work transcript.database with
  | .ok a database => .ok a { transcript with database }
  | .error e database => .error e { transcript with database }

/-- Runs an action to its end, whether it fails or not. -/
def attempt (run : Run σ α) : Run σ (Except MigrationError α) := fun transcript =>
  match run transcript with
  | .ok a transcript => .ok (.ok a) transcript
  | .error e transcript => .ok (.error e) transcript

def ofExcept : Except MigrationError α → Run σ α
  | .ok a => pure a
  | .error e => throw e

def inContext (migration : Migration) (run : Run σ α) : Run σ α :=
  run.adaptExcept (.during migration.app migration.name)

def emit (line : Line) : Run σ Unit :=
  modify fun transcript => { transcript with lines := transcript.lines.push line }

def report (level : Level) (text : String) (migration : Migration)
    (details : List (String × String)) : Run σ Unit :=
  emit (.message level text ([("app", migration.app), ("name", migration.name)] ++ details))

end Run

namespace Migration

variable {σ : Type} (backend : Backend σ)

/-- Operations with the steps they take. -/
abbrev Steps := List (Operation × AppSchema.Step)

def withSteps (migration : Migration) (steps : List AppSchema.Step) : Steps :=
  migration.operations.zip steps

/-! ### The operations of a migration -/

def forwardAll (steps : Steps) : Work σ Unit :=
  steps.forM fun (operation, step) => operation.forward backend step

def backwardAll (steps : Steps) : Work σ Unit :=
  steps.reverse.forM fun (operation, step) => operation.backward backend step

/-- Carries out operations one after the other until one fails. The answer is the operations that
are complete, and the error if there was one. -/
def forwardCompleted : Steps → Work σ (Steps × Option MigrationError)
  | [] => return ([], none)
  | (operation, step) :: rest => fun database =>
    match operation.forward backend step database with
    | .error e database => .ok ([], some e) database
    | .ok () database =>
      match forwardCompleted rest database with
      | .ok (completed, e) database => .ok ((operation, step) :: completed, e) database
      | .error e database => .error e database

def statementsOf (dialect : Dialect) (now : DateTime)
    (work : Backend Journal → Work Journal Unit) : Except MigrationError (List String) :=
  match work (Journal.backend dialect now) {} with
  | .ok () journal => .ok (journal.statements.toList.map (·.text dialect))
  | .error e _ => .error e

end Migration

namespace Migrator

/-! ### Migrations in order, and their statements -/

/-- The number that a target stands for: that of a migration name, or else the target itself. -/
def numberOfTarget (target : String) : String :=
  match MigrationName.split? target with
  | some (number, _) => number
  | none => target

/-- The migrations of an app in the order of their names. All must belong to the app. -/
def sorted (app : String) (migrations : List Migration) :
    Except MigrationError (List Migration) :=
  match migrations.find? (·.app ≠ app) with
  | some foreign => .error (.inconsistent app (.foreignMigration foreign.name foreign.app))
  | none => .ok (migrations.mergeSort fun a b => !(b.name < a.name))

def dialectNamed (name : String) : Except MigrationError Dialect :=
  match Dialect.byName? name with
  | some dialect => .ok dialect
  | none => .error (.unknownDialect name)

def migrationStatements (dialectName : String) (now : DateTime) (app : String)
    (migrations : List Migration) (name : String) (reverse : Bool) :
    Except MigrationError (List String) := do
  let sorted ← sorted app migrations
  match sorted.dropWhile (·.name ≠ name) with
  | [] => throw (.notFound app name)
  | migration :: _ =>
    let state ← AppSchema.replay app (sorted.takeWhile (·.name ≠ name))
    let steps ← (state.steps migration).mapError (.during app name)
    let pairs := migration.withSteps steps
    let dialect ← dialectNamed dialectName
    let statements := Migration.statementsOf dialect now fun backend =>
      if reverse then Migration.backwardAll backend pairs else Migration.forwardAll backend pairs
    statements.mapError (.during app name)

end Migrator

structure Migrator (σ : Type) where
  backend : Backend σ
  dryRun : Bool := false

namespace Migrator

variable {σ : Type} (migrator : Migrator σ)

def init : Run σ Unit := do
  if !migrator.dryRun then Run.onDatabase (Ledger.create migrator.backend)

/-! ### What the ledger says -/

/-- The migrations of an app that are applied. In a dry run there may be no ledger yet. -/
def entries (app : String) : Run σ (List LedgerEntry) := do
  match ← (Run.onDatabase (Ledger.entries migrator.backend app)).attempt with
  | .ok records => return records
  | .error (.ledger cause) => if migrator.dryRun then return [] else throw (.ledger cause)
  | .error e => throw e

def hasApplied (app name : String) : Run σ Bool := do
  return (← migrator.entries app).any (·.name == name)

structure Status where
  name : String
  number : String
  applied : Bool
  since : Option DateTime

def statusOf (records : List LedgerEntry) (migration : Migration) : Status :=
  let record := records.find? (·.name == migration.name)
  { name := migration.name
    number := migration.number
    applied := record.isSome
    since := record.bind (·.applied) }

/-- The status of the migrations of an app, in the order of their names. -/
def status (app : String) (migrations : List Migration) : Run σ (List Status) := do
  let records ← migrator.entries app
  return (← Run.ofExcept (sorted app migrations)).map (statusOf records)

/-! ### Transactions -/

def abort : Run σ Unit := do
  match ← (Run.onDatabase migrator.backend.rollback.toWork).attempt with
  | .ok () => return
  | .error e => Run.emit (.message .warning "Transaction rollback failed" [("error", e.message)])

def inTransaction (work : Work σ Unit) : Run σ Unit := do
  Run.onDatabase migrator.backend.begin.toWork
  match ← (Run.onDatabase work).attempt with
  | .ok () => Run.onDatabase migrator.backend.commit.toWork
  | .error e => do
    migrator.abort
    throw e

def emitStatements (work : Backend Journal → Work Journal Unit) : Run σ Unit := do
  let dialect ← Run.ofExcept (dialectNamed migrator.backend.dialect.name)
  let statements ← Run.ofExcept (Migration.statementsOf dialect migrator.backend.now work)
  statements.forM fun statement => Run.emit (.output (statement ++ ";"))

/-- Undoes the operations that are complete, and says so. -/
def undoCompleted (migration : Migration) (completed : Migration.Steps) : Run σ Unit := do
  Run.report .warning "Migration failed, undoing completed operations" migration
    [("completed", toString completed.length)]
  match ← (Run.onDatabase (Migration.backwardAll migrator.backend completed)).attempt with
  | .ok () => return
  | .error e =>
    Run.emit (.message .warning "Cleanup failed, schema may be partially migrated"
      [("error", e.message)])

/-! ### Applying -/

def record (migration : Migration) : Work σ Unit :=
  Ledger.enter migrator.backend migration.app migration.name migration.number

/-- Carries out a migration operation by operation and records it. -/
def applyStepwise (migration : Migration) (steps : Migration.Steps) : Run σ Unit := do
  let (completed, failure) ← Run.onDatabase (Migration.forwardCompleted migrator.backend steps)
  match failure with
  | some e => do
    migrator.undoCompleted migration completed
    throw e
  | none => Run.onDatabase (migrator.record migration)

/-- Applies one migration to the database and to the state. -/
def perform (state : AppSchema) (migration : Migration) : Run σ AppSchema := do
  Run.report .info "Applying migration" migration []
  let steps := migration.withSteps (← Run.ofExcept (state.steps migration))
  if migrator.dryRun then
    migrator.emitStatements fun recorder => Migration.forwardAll recorder steps
  else if migrator.backend.dialect.capabilities.transactional then
    migrator.inTransaction do
      Migration.forwardAll migrator.backend steps
      migrator.record migration
  else
    migrator.applyStepwise migration steps
  let state ← Run.ofExcept (state.next migration)
  Run.report .info "Migration applied successfully" migration []
  return state

/-- Fails unless all that a migration depends on is applied. `applied` holds the migrations of the
same app that this run has applied. -/
def requireApplied (migration : Migration) (applied : List String) : Run σ Unit :=
  migration.dependencies.forM fun (app, name) => do
    if app == migration.app && applied.contains name then return
    if !(← migrator.hasApplied app name) then
      throw (.missingDependency migration.app migration.name app name)

/-- Applies migrations in turn, skipping those that are recorded. The answer is the names of those
that were applied, after those in `done`. -/
def applyAll (recorded : List String) (state : AppSchema) (done : List String) :
    List Migration → Run σ (List String)
  | [] => return done
  | migration :: rest => do
    if recorded.contains migration.name then
      Run.report .warning "Migration already applied, skipping" migration []
      let state ← Run.ofExcept (state.next migration)
      applyAll recorded state done rest
    else
      migrator.requireApplied migration done
      let state ← Run.inContext migration (migrator.perform state migration)
      applyAll recorded state (done ++ [migration.name]) rest

/-- Whether the number of a migration is not above a target, if there is one. -/
def isWithin (target : Option String) (migration : Migration) : Bool :=
  match target with
  | some number => !(number < migration.number)
  | none => true

/-- Applies the migrations of an app that are not applied yet, up to a target if one is given. The
answer is their names. -/
def apply (app : String) (migrations : List Migration) (target : Option String) :
    Run σ (List String) := do
  let sorted ← Run.ofExcept (sorted app migrations)
  let target := target.map numberOfTarget
  match target with
  | some number => if !sorted.any (·.number == number) then throw (.notFound app number)
  | none => pure ()
  let recorded ← migrator.entries app
  let applied ← migrator.applyAll (recorded.map (·.name)) { app } []
    (sorted.takeWhile (isWithin target))
  if applied.isEmpty then Run.emit (.message .info "No migrations to apply" [("app", app)])
  return applied

/-! ### Rolling back -/

def revert (migration : Migration) (steps : Migration.Steps) : Run σ Unit := do
  Run.report .info "Rolling back migration" migration []
  let work : Work σ Unit := do
    Migration.backwardAll migrator.backend steps
    Ledger.strike migrator.backend migration.app migration.name
  if migrator.dryRun then
    migrator.emitStatements fun recorder => Migration.backwardAll recorder steps
  else if migrator.backend.dialect.capabilities.transactional then
    migrator.inTransaction work
  else
    Run.onDatabase work
  Run.report .info "Migration rolled back successfully" migration []

/-- The recorded migrations above a target, each with its steps, found by applying all that are
recorded in turn. -/
def undoList (target : String) (state : AppSchema) :
    List Migration → Except MigrationError (List (Migration × Migration.Steps))
  | [] => .ok []
  | migration :: rest => do
    let steps ← (state.steps migration).mapError (.during migration.app migration.name)
    let later ← undoList target (← state.next migration) rest
    return if target < migration.number then (migration, migration.withSteps steps) :: later
      else later

def revertAll : List (Migration × Migration.Steps) → Run σ Unit
  | [] => return
  | (migration, steps) :: rest => do
    Run.inContext migration (migrator.revert migration steps)
    revertAll rest

/-- Undoes the recorded migrations of an app above a target, the last one first. The answer is
their names. -/
def rollback (app : String) (migrations : List Migration) (target : String) :
    Run σ (List String) := do
  let target := numberOfTarget target
  let sorted ← Run.ofExcept (sorted app migrations)
  let records ← migrator.entries app
  match records.find? fun record => !sorted.any (·.name == record.name) with
  | some unknown => throw (.notFound app unknown.name)
  | none => pure ()
  let recorded := sorted.filter fun migration => records.any (·.name == migration.name)
  let undo ← Run.ofExcept (undoList target { app } recorded)
  if undo.isEmpty then
    Run.emit (.message .info "Nothing to roll back" [("app", app), ("target", target)])
    return []
  migrator.revertAll undo.reverse
  return undo.reverse.map (·.1.name)

end Migrator

end SchemaHistory
