import SchemaHistory.Vocabulary
import SchemaHistory.Text.Word

/-!
# Migrations

A migration is a named list of operations on the models of an app. Its name begins with a number of
four digits, which places it among the migrations of the app, and goes on with a label after an
underscore. Migrations are written as JSON documents.
-/

namespace SchemaHistory

structure Migration where
  app : String
  name : String
  /-- The migrations, by app and name, that must be applied before. -/
  dependencies : List (String × String) := []
  operations : List Operation := []
deriving DecidableEq

/-- The number and the label of a name: four digits of any script, an underscore and at least one
word character. -/
def MigrationName.split? (name : String) : Option (String × String) :=
  match name.toList with
  | a :: b :: c :: d :: '_' :: label =>
    if [a, b, c, d].all Text.isDigitOfAnyScript && !label.isEmpty && label.all Text.isWordChar then
      some (String.ofList [a, b, c, d], String.ofList label)
    else none
  | _ => none

/-- The number and the label of a name, or the error that it has none. -/
def MigrationName.decode (name : String) : Except MigrationError (String × String) :=
  match split? name with
  | some parts => .ok parts
  | none => .error (.invalidName name)

def MigrationName.numberText (n : Nat) : String :=
  String.ofList (Text.zeroPadded 4 (Text.digitsOfNumber n))

/-- The number that the digits of a name stand for. Digits other than 0 to 9 stand for nothing. -/
def MigrationName.rank (number : String) : Nat :=
  if number.toList.all Char.isDigit then Text.numberOfDigits number.toList else 0

namespace Migration

/-- A migration without dependencies and operations, if the name is one. -/
def ofName (app name : String) : Except MigrationError Migration := do
  let _ ← MigrationName.decode name
  return { app, name }

def number (migration : Migration) : String :=
  match MigrationName.split? migration.name with
  | some (number, _) => number
  | none => ""

def label (migration : Migration) : String :=
  match MigrationName.split? migration.name with
  | some (_, label) => label
  | none => ""

def rank (migration : Migration) : Nat := MigrationName.rank migration.number

def same (a b : Migration) : Bool :=
  a.app == b.app && a.name == b.name && a.dependencies == b.dependencies &&
    a.operations.length == b.operations.length &&
    (a.operations.zip b.operations).all fun (x, y) => x.same y

/-! ### Documents -/

def toJson (migration : Migration) : Json :=
  .object [
    ("app", .string migration.app),
    ("name", .string migration.name),
    ("dependencies", .array (migration.dependencies.map fun (app, name) =>
      Json.array [.string app, .string name])),
    ("operations", .array (migration.operations.map Operation.toJson))]

def text (migration : Migration) : String := migration.toJson.pretty

def dependencyOf? : Json → Option (String × String)
  | .array [app, name] => do return (← app.asString?, ← name.asString?)
  | _ => none

def dependenciesOf? (json : Json) : Option (List (String × String)) := do
  (← json.asArray?).mapM dependencyOf?

/-- A migration whose operations are not read yet. -/
structure Draft where
  app : String
  name : String
  dependencies : List (String × String)
  operations : Json

def Draft.ofJson? (json : Json) : Option Draft := do
  let [app, name, dependencies, operations] ←
    json.record? ["app", "name", "dependencies", "operations"] | none
  return {
    app := ← Json.required Json.asString? app
    name := ← Json.required Json.asString? name
    dependencies := ← Json.withDefault [] dependenciesOf? dependencies
    operations := ← Json.required Json.whole? operations
  }

/-- Reads the text of a migration. A document of another shape is reported first, then a bad name,
then the first operation that cannot be read. -/
def read (vocabulary : Vocabulary) (s : String) : Except MigrationError Migration :=
  match (Json.read? s).bind Draft.ofJson? with
  | none => .error .invalidDocument
  | some draft => do
    let _ ← MigrationName.decode draft.name
    return {
      app := draft.app
      name := draft.name
      dependencies := draft.dependencies
      operations := ← vocabulary.readOperations draft.operations
    }

end Migration

end SchemaHistory
