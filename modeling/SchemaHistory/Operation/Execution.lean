import SchemaHistory.AppSchema
import SchemaHistory.Backend.Rows

/-!
# Carrying out operations

An operation is carried out on a database between two states of the app, the one before it and the
one after it. Backward, it is undone between the same two states. Adding and removing fields are
each other's undoing, and so are creating and deleting models and indexes.
-/

namespace SchemaHistory

abbrev Work (σ : Type) := EStateM MigrationError σ

def Session.toWork {σ α : Type} (session : Session σ α) : Work σ α := session.adaptExcept .schema

def Work.ofExcept {σ α : Type} : Except MigrationError α → Work σ α
  | .ok a => pure a
  | .error e => throw e

namespace Operation

variable {σ : Type} (backend : Backend σ)

def forward (step : AppSchema.Step) : Operation → Work σ Unit
  | createModel name .. => do
    (backend.createTable (← Work.ofExcept (step.after.require name))).toWork
  | deleteModel name => do
    (backend.dropTable (← Work.ofExcept (step.before.require name))).toWork
  | addFields model fields => do
    (backend.widenTable (← Work.ofExcept (step.after.require model)) fields.names).toWork
  | removeFields model fields => do
    let old ← Work.ofExcept (step.before.require model)
    let new ← Work.ofExcept (step.after.require model)
    (backend.narrowTable old new fields).toWork
  | addIndex model index _ => do
    (backend.createIndex (← Work.ofExcept (step.after.require model)) index).toWork
  | removeIndex _ index => (backend.dropIndex index).toWork

def restoreTable (model : Model) : Session σ Unit := do
  backend.createTable model
  model.indexes.names.forM (backend.createIndex model)

def backward (step : AppSchema.Step) : Operation → Work σ Unit
  | createModel name .. => do
    (backend.dropTable (← Work.ofExcept (step.after.require name))).toWork
  | deleteModel name => do
    (restoreTable backend (← Work.ofExcept (step.before.require name))).toWork
  | addFields model fields => do
    let old ← Work.ofExcept (step.after.require model)
    let new ← Work.ofExcept (step.before.require model)
    (backend.narrowTable old new fields.names).toWork
  | removeFields model fields => do
    (backend.widenTable (← Work.ofExcept (step.before.require model)) fields).toWork
  | addIndex _ index _ => (backend.dropIndex index).toWork
  | removeIndex model index => do
    (backend.createIndex (← Work.ofExcept (step.before.require model)) index).toWork

end Operation

end SchemaHistory
