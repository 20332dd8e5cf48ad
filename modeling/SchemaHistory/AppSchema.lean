import SchemaHistory.Migration

/-!
# The state of an app

The state of an app is what its migrations have made of it: its models, and the names of the
migrations behind them. A change of the state may be refused half-way, and keeps what it has done up
to there, so the state is kept also where a change fails.
-/

namespace SchemaHistory

/-- The models of an app, and the migrations that made them. -/
structure AppSchema where
  app : String
  /-- The models, in the order of their names. -/
  models : Named Model := []
  migrations : List String := []
deriving DecidableEq

abbrev Change := EStateM MigrationError AppSchema

/-- Runs a change. Where it fails, the error is all that is left. -/
def Change.outcome {α : Type} (change : Change α) (state : AppSchema) :
    Except MigrationError (α × AppSchema) :=
  match change state with
  | .ok a state => .ok (a, state)
  | .error e _ => .error e

def Change.ofExcept {α : Type} : Except SchemaError α → Change α
  | .ok a => pure a
  | .error e => throw (.schema e)

namespace AppSchema

/-! ### Looking up -/

def model? (state : AppSchema) (name : String) : Option Model := state.models.get? name

def fault (state : AppSchema) (fault : StateFault) : MigrationError := .inconsistent state.app fault

def require (state : AppSchema) (name : String) : Except MigrationError Model :=
  match state.model? name with
  | some model => .ok model
  | none => .error (state.fault (.unknownModel name))

def lastMigration? (state : AppSchema) : Option String := state.migrations.getLast?

def same (a b : AppSchema) : Bool :=
  a.app == b.app && a.models.sameBy Model.same b.models && a.migrations == b.migrations

end AppSchema

namespace Operation

/-! ### Operations -/

def refuse {α : Type} (fault : StateFault) : Change α := do
  throw ((← get).fault fault)

def getModel (name : String) : Change Model := do
  match (← get).model? name with
  | some model => return model
  | none => refuse (.unknownModel name)

def putModel (model : Model) : Change Unit :=
  modify fun state => { state with models := state.models.insert model.name model }

/-- Changes a model in its place. What the change leaves of the model is kept, also where it
fails. -/
def revise {α : Type} (model : Model) (revision : Revision α) : Change Unit :=
  match revision model with
  | .ok _ revised => putModel revised
  | .error e revised => do
    putModel revised
    throw (.schema e)

def applyCreate (name : String) (table : Option String) (fields : Fields) : Change Unit := do
  let state ← get
  if (state.model? name).isSome then refuse (.duplicateModel name)
  let table := table.getD (usualTable state.app name)
  putModel (← Change.ofExcept (Model.ofParts state.app name table fields []))

def applyDelete (name : String) : Change Unit := do
  let _ ← getModel name
  modify fun state => { state with models := state.models.erase name }

def applyAddField (model : String) (name : String) (field : Field) : Change Unit := do
  let current ← getModel model
  if (current.field? name).isSome then refuse (.duplicateField model name)
  revise current (Model.addField name field)

def applyRemoveField (model : String) (name : String) : Change Unit := do
  let current ← getModel model
  if (current.field? name).isNone then refuse (.unknownField model name)
  revise current (Model.removeField name)

def applyAddIndex (model index : String) (fields : List String) : Change Unit := do
  let current ← getModel model
  if current.indexes.has index then refuse (.duplicateIndex model index)
  revise current (Model.addIndex index fields)

def applyRemoveIndex (model index : String) : Change Unit := do
  let current ← getModel model
  if !current.indexes.has index then refuse (.unknownIndex model index)
  revise current (Model.removeIndex index)

/-- Applies an operation to the state. Fields are added and removed one by one, so where one is
refused the ones before it stay added or removed. -/
def apply : Operation → Change Unit
  | createModel name table fields => applyCreate name table fields
  | deleteModel name => applyDelete name
  | addFields model fields => do
    let _ ← getModel model
    fields.forM fun (name, field) => applyAddField model name field
  | removeFields model fields => do
    let _ ← getModel model
    fields.forM (applyRemoveField model)
  | addIndex model index fields => applyAddIndex model index fields
  | removeIndex model index => applyRemoveIndex model index

end Operation

namespace AppSchema

/-! ### Migrations -/

def inContext {α : Type} (migration : Migration) (change : Change α) : Change α :=
  change.adaptExcept (.during migration.app migration.name)

/-- Applies the operations of a migration, which must belong to the app. -/
def advance (migration : Migration) : Change Unit := do
  if migration.app ≠ (← get).app then
    throw ((← get).fault (.foreignMigration migration.name migration.app))
  migration.operations.forM fun operation => inContext migration operation.apply
  modify fun state => { state with migrations := state.migrations ++ [migration.name] }

def next (state : AppSchema) (migration : Migration) : Except MigrationError AppSchema := do
  let ((), state) ← Change.outcome (advance migration) state
  return state

def replay (app : String) (migrations : List Migration) : Except MigrationError AppSchema :=
  migrations.foldlM next { app }

/-- A state and the one an operation turned it into. -/
structure Step where
  before : AppSchema
  after : AppSchema

/-- The steps of some operations, each from the state the one before it led to. -/
def stepsOf (state : AppSchema) : List Operation → Except MigrationError (List Step)
  | [] => .ok []
  | operation :: rest => do
    let ((), after) ← Change.outcome operation.apply state
    return ⟨state, after⟩ :: (← after.stepsOf rest)

def steps (state : AppSchema) (migration : Migration) : Except MigrationError (List Step) :=
  state.stepsOf migration.operations

end AppSchema

end SchemaHistory
