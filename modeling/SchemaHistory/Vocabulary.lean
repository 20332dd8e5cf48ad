import SchemaHistory.MigrationError
import SchemaHistory.Operation

/-!
# The vocabulary of documents

A vocabulary says which operations documents may hold: it gives the name of each kind a reader of
its members. The standard one has the six kinds of operations. An operation is an object with a
single key, and one of an unknown kind is refused by the name that it gives.
-/

namespace SchemaHistory

/-- Readers of operations, in the order of their names. -/
abbrev Vocabulary := Named (Json → Option Operation)

namespace Vocabulary

def empty : Vocabulary := []

def learn (name : String) (read : Json → Option Operation) (vocabulary : Vocabulary) : Vocabulary :=
  vocabulary.insert name read

/-- The vocabulary of the six kinds of operations. -/
def standard : Vocabulary :=
  empty
  |> learn "CreateModel" Operation.createModelOf?
  |> learn "DeleteModel" Operation.deleteModelOf?
  |> learn "AddFields" Operation.addFieldsOf?
  |> learn "RemoveFields" Operation.removeFieldsOf?
  |> learn "AddIndex" Operation.addIndexOf?
  |> learn "RemoveIndex" Operation.removeIndexOf?

/-- Reads an operation: an object whose only key is the name of the kind. -/
def readOperation (vocabulary : Vocabulary) : Json → Except MigrationError Operation
  | .object [(name, members)] =>
    match vocabulary.get? name with
    | some read => match read members with
      | some operation => .ok operation
      | none => .error .invalidDocument
    | none => .error (.invalidOperation name)
  | .object members => .error (.invalidOperation (", ".intercalate (Named.names members)))
  | json => .error (.invalidOperation json.compact)

def readOperations (vocabulary : Vocabulary) : Json → Except MigrationError (List Operation)
  | .array items => items.mapM vocabulary.readOperation
  | json => .error (.invalidOperation json.compact)

end Vocabulary

end SchemaHistory
