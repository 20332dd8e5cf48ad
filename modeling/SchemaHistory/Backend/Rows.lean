import SchemaHistory.Backend.Tables

/-!
# Reading and writing rows

Rows are given and returned by field, and stored by column. Each action here is one statement, and a
condition is resolved against the model before anything is asked of the database.
-/

namespace SchemaHistory

/-- A row by field, from a row by column. Each column is given to one field only, the first that
asks for it; what is missing is null. -/
def Row.byField : Fields → Row → Row
  | [], _ => []
  | (name, field) :: rest, row =>
    let column := field.columnName name
    (byField rest (row.erase column)).insert name ((row.get? column).getD .null)

namespace Backend

variable {σ : Type} (backend : Backend σ)

/-- The columns of a new row, with their values: the fields of a model that have a value. -/
def insertValues (model : Model) (values : Row) : List (String × Value) :=
  model.fields.filterMap fun (name, field) =>
    (values.get? name).map fun value => (field.columnName name, value)

def insert (model : Model) (values : Row) : Session σ Nat :=
  backend.execute (.insert model.table (insertValues model values))

def delete (model : Model) (condition : Condition Lookup) : Session σ Nat := do
  let condition ← Session.ofExcept (condition.resolve model)
  backend.execute (.delete model.table condition)

/-- The rows under a condition, in the order of the key. -/
def select (model : Model) (condition : Condition Lookup) : Session σ (List Row) := do
  let condition ← Session.ofExcept (condition.resolve model)
  let key ← Session.ofExcept (model.column model.key)
  let rows ← backend.query (.select model.table model.columns condition key)
  return rows.map (Row.byField model.fields)

end Backend

end SchemaHistory
