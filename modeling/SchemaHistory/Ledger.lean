import SchemaHistory.Operation.Execution

/-!
# The ledger

The ledger is a table that has one row for every migration that is applied to its database. It is
described as a model like any other table, and it is read and written through the same backend.
-/

namespace SchemaHistory

structure LedgerEntry where
  id : Int64
  app : String
  name : String
  number : String
  /-- When the migration was applied. -/
  applied : Option DateTime
deriving DecidableEq

namespace Ledger

def table : String := "keel_migration"

def model : Model where
  app := "keel"
  name := "Migration"
  table
  key := "id"
  fields := [
    ("id", .ofKind .auto),
    ("app", .ofKind (.char 50)),
    ("name", .ofKind (.char 100)),
    ("number", .ofKind .text),
    ("applied", { Field.ofKind (.dateTime false false) with null := true })]
  indexes := []

/-- An action on the table. Whatever goes wrong in it is an error of the ledger. -/
def action {σ α : Type} (session : Session σ α) : Work σ α := session.adaptExcept .ledger

def textOf (column : String) (row : Row) : String :=
  match row.get? column with
  | some (.text s) => s
  | some (.int n) => String.ofList (Json.integerText n.toInt)
  | _ => ""

/-- The moment in the column `applied` of a row. Databases without a type for moments give back a
text. -/
def appliedOf (row : Row) : Option DateTime :=
  match row.get? "applied" with
  | some (.dateTime moment) => some moment
  | some (.text s) => (DateTime.readSpaced? s).or (DateTime.readTight? s)
  | _ => none

def ofRow (row : Row) : LedgerEntry where
  id := match row.get? "id" with
    | some (.int id) => id
    | _ => 0
  app := textOf "app" row
  name := textOf "name" row
  number := textOf "number" row
  applied := appliedOf row

/-- The row that says when a migration was applied. The database numbers it. -/
def newRow (app name number : String) (applied : DateTime) : Row :=
  [("app", .text app), ("applied", .dateTime applied), ("name", .text name),
    ("number", .text number)]

variable {σ : Type} (backend : Backend σ)

def create : Work σ Unit := action (backend.run (.create model true))

def enter (app name number : String) : Work σ Unit := action do
  let _ ← backend.insert model (newRow app name number backend.now)

def isText (field text : String) : Condition Lookup :=
  .ofList [⟨LookupKey.encode field .equal, .text text⟩]

/-- Removes the record of a migration, which must be there. -/
def strike (app name : String) : Work σ Unit := do
  let removed ← action (backend.delete model ((isText "app" app).both (isText "name" name)))
  if removed = 0 then throw (.notFound app name)

/-- The migrations of an app that are applied, in the order in which they were. -/
def entries (app : String) : Work σ (List LedgerEntry) := do
  let rows ← action (backend.select model (isText "app" app))
  return rows.map ofRow

def has (app name : String) : Work σ Bool := do
  return (← entries backend app).any (·.name == name)

def last? (app : String) : Work σ (Option LedgerEntry) := do
  return (← entries backend app).getLast?

end Ledger

end SchemaHistory
