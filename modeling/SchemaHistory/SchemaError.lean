/-!
# What can be wrong with a model, a query or a statement

Each error names its cause; `SchemaError.message` is its wording. Where a database refuses a
statement, the error holds what it said; `isRefusal` tells these errors from all others.
-/

namespace SchemaHistory

inductive ModelFault where
  | secondKey (field : String)
  | missingKey
  /-- A field called `id` stands in the way of the key that would be added. -/
  | idIsNoKey
  | duplicateField (field : String)
  | duplicateIndex (index : String)
  | emptyIndex (index : String)
  | unknownIndex (index : String)
  | keyRemoved
  | indexedFieldRemoved (field : String)
deriving DecidableEq

def ModelFault.message : ModelFault → String
  | secondKey field => s!"duplicate pk: {field}"
  | missingKey => "missing primary key"
  | idIsNoKey => "field id is not a primary key but no other primary key is declared"
  | duplicateField field => s!"duplicate field: {field}"
  | duplicateIndex index => s!"duplicate index: {index}"
  | emptyIndex index => s!"index with no fields: {index}"
  | unknownIndex index => s!"index not found: {index}"
  | keyRemoved => "pk field cannot be removed"
  | indexedFieldRemoved field => s!"cannot remove indexed field: {field}"

inductive TransactionFault where
  | alreadyOpen
  | commitWithoutOpen
  | rollbackWithoutOpen
deriving DecidableEq

def TransactionFault.message : TransactionFault → String
  | alreadyOpen => "transaction already open"
  | commitWithoutOpen => "commit without open transaction"
  | rollbackWithoutOpen => "rollback without open transaction"

inductive SchemaError where
  /-- A model has no such field. -/
  | unknownField (model field : String)
  /-- A lookup key ends in something that is no operator. -/
  | unknownOperator (operator : String)
  | faultyModel (model : String) (fault : ModelFault)
  /-- Rows have nothing to fill a new column with that must not be null. -/
  | missingDefault (model field : String)
  /-- A database refused a statement. -/
  | refused (database reason statement : String)
  | transaction (database : String) (fault : TransactionFault)
deriving DecidableEq

namespace SchemaError

def message : SchemaError → String
  | unknownField model field => s!"{model}: unknown field: {field}"
  | unknownOperator operator => s!"invalid lookup: {operator}"
  | faultyModel model fault => s!"invalid model {model}: {fault.message}"
  | missingDefault model field =>
    s!"{model}: cannot add not null column without default: {field}"
  | refused database reason statement =>
    s!"database {database}: {reason} (statement: {statement})"
  | transaction database fault => s!"database {database}: {fault.message}"

def isRefusal : SchemaError → Bool
  | refused .. => true
  | _ => false

end SchemaError

end SchemaHistory
