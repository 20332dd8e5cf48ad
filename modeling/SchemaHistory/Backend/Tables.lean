import SchemaHistory.Backend

/-!
# Changing tables

The changes to tables that migrations are made of. Where a database cannot drop a column or make it
refuse nulls in place, the table is built anew: a shadow table with the columns wanted is created,
the rows are copied into it, and it takes the place of the old table. An index belongs to its table
and disappears with it, so all of them are created again.
-/

namespace SchemaHistory.Backend

variable {σ : Type} (backend : Backend σ)

/-- Creates the table of a model, without its indexes. -/
def createTable (model : Model) : Session σ Unit := backend.run (.create model false)

def dropTable (model : Model) : Session σ Unit := backend.run (.dropTable model.table)

def renameTable (table newName : String) : Session σ Unit :=
  backend.run (.renameTable table newName)

def indexStatement (model : Model) (index : String) : Except SchemaError Statement :=
  match model.indexes.get? index with
  | none => .error (model.fault (.unknownIndex index))
  | some fields => do return .createIndex index model.table (← fields.mapM model.column)

def createIndex (model : Model) (index : String) : Session σ Unit := do
  backend.run (← Session.ofExcept (indexStatement model index))

def dropIndex (index : String) : Session σ Unit := backend.run (.dropIndex index)

/-- The name of the table that takes the place of the given one. -/
def shadowName (table : String) : String := table ++ "__new"

/-- Builds the table of a model anew, keeping the given columns of its rows. -/
def renewTable (model : Model) (columns : List String) : Session σ Unit := do
  let shadow := model.inTable (shadowName model.table)
  backend.createTable shadow
  backend.run (.copyRows model.table shadow.table columns)
  backend.run (.dropTable model.table)
  backend.renameTable shadow.table model.table
  model.indexes.names.forM (backend.createIndex model)

/-- A column as it can be added to a table that has rows: it accepts nulls, and where constraints
cannot be changed in place it need not be unique. -/
def looseColumn (inPlace : Bool) (name : String) (field : Field) : Column :=
  .ofField name { field with null := true, unique := inPlace && field.unique }

/-- What is known about columns that are being added. -/
structure Adding where
  /-- What the rows get in the columns that refuse nulls. -/
  fill : Row := []
  /-- The columns that refuse nulls, in the order added. -/
  notNull : List String := []
  /-- Whether the table must be built anew. -/
  rebuild : Bool := false

/-- Adds the column of a field, weakened so that it fits rows that are there already. -/
def addColumn (model : Model) (adding : Adding) (name : String) : Session σ Adding := do
  let inPlace := backend.dialect.capabilities.altersNullability
  let some field := model.field? name | throw (.unknownField model.name name)
  let column := field.columnName name
  let adding ←
    if field.null then pure adding
    else match field.filling backend.now with
      | some value => pure { adding with
          fill := adding.fill.insert name value
          notNull := adding.notNull ++ [column] }
      | none => throw (.missingDefault model.name name)
  let adding := { adding with
    rebuild := adding.rebuild || (!inPlace && (!field.null || field.unique)) }
  backend.run (.addColumn model.table (looseColumn inPlace column field))
  return adding

/-- The columns of an update, with their values: the fields of a model that have a value, but not
its key. -/
def updateValues (model : Model) (values : Row) : List (String × Value) :=
  model.fields.filterMap fun (name, field) =>
    if name = model.key then none
    else (values.get? name).map fun value => (field.columnName name, value)

/-- Changes the rows under a condition. Without a field to change there is nothing to do. -/
def update (model : Model) (values : Row) (condition : Condition Lookup) : Session σ Nat :=
  match updateValues model values with
  | [] => return 0
  | assigned => do
    let condition ← Session.ofExcept (condition.resolve model)
    backend.execute (.update model.table assigned condition)

/-- Adds the columns of some fields of a model. The rows that are there already are filled before
the constraints of the columns are put in place. -/
def widenTable (model : Model) (fields : List String) : Session σ Unit := do
  let adding ← fields.foldlM (backend.addColumn model) {}
  if !adding.fill.isEmpty then
    let _ ← backend.update model adding.fill .empty
  if adding.rebuild then
    backend.renewTable model model.columns
  else if backend.dialect.capabilities.altersNullability then
    adding.notNull.forM fun column => backend.run (.setNotNull model.table column)

def dropColumn (model : Model) (field : String) : Session σ Unit := do
  backend.run (.dropColumn model.table (← Session.ofExcept (model.column field)))

/-- Drops the columns of some fields that `old` has and `new` has no more. -/
def narrowTable (old new : Model) (fields : List String) : Session σ Unit := do
  if backend.dialect.capabilities.dropsColumns then
    fields.forM (backend.dropColumn old)
  else
    let _ ← Session.ofExcept (fields.mapM old.column)
    backend.renewTable new new.columns

end SchemaHistory.Backend
