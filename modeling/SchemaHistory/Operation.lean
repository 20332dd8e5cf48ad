import SchemaHistory.Model

/-!
# Operations

An operation is one reversible change to the models of an app. This module holds the six kinds, what
they are called, and how they are written in documents. What an operation does to a state, and what
it does to a database, is in modules of its own.
-/

namespace SchemaHistory

/-- A change to the models of an app. -/
inductive Operation where
  | createModel (name : String) (table : Option String) (fields : Fields)
  | deleteModel (name : String)
  | addFields (model : String) (fields : Fields)
  | removeFields (model : String) (fields : List String)
  | addIndex (model index : String) (fields : List String)
  | removeIndex (model index : String)
deriving DecidableEq

namespace Operation

def name : Operation → String
  | createModel .. => "CreateModel"
  | deleteModel .. => "DeleteModel"
  | addFields .. => "AddFields"
  | removeFields .. => "RemoveFields"
  | addIndex .. => "AddIndex"
  | removeIndex .. => "RemoveIndex"

def model : Operation → String
  | createModel name .. | deleteModel name => name
  | addFields model _ | removeFields model _ | addIndex model .. | removeIndex model _ => model

def description : Operation → String
  | createModel name .. => s!"Create model {name}"
  | deleteModel name => s!"Delete model {name}"
  | addFields model fields =>
    let names := ", ".intercalate fields.names
    s!"Add fields {names} to {model}"
  | removeFields model fields =>
    let names := ", ".intercalate fields
    s!"Remove fields {names} from {model}"
  | addIndex model index _ => s!"Add index {index} to {model}"
  | removeIndex model index => s!"Remove index {index} from {model}"

/-- Whether two operations are alike. The order of new fields does not matter, and floats are
compared as numbers. -/
def same : Operation → Operation → Bool
  | createModel name table fields, createModel name' table' fields' =>
    name == name' && table == table' && fields.sameBy Field.same fields'
  | addFields model fields, addFields model' fields' =>
    model == model' && fields.sameBy Field.same fields'
  | a, b => a == b

/-! ### Documents -/

def namesJson (names : List String) : Json := .array (names.map Json.string)

def members : Operation → List (String × Json)
  | createModel name table fields =>
    ("name", .string name) :: (table.map fun table => ("table", Json.string table)).toList ++
      [("fields", fields.toJson)]
  | deleteModel name => [("name", .string name)]
  | addFields model fields => [("model", .string model), ("fields", fields.toJson)]
  | removeFields model fields => [("model", .string model), ("fields", namesJson fields)]
  | addIndex model index fields =>
    [("model", .string model), ("name", .string index), ("fields", namesJson fields)]
  | removeIndex model index => [("model", .string model), ("name", .string index)]

def toJson (operation : Operation) : Json :=
  .object [(operation.name, .object operation.members)]

def text (operation : Operation) : String := operation.toJson.compact

def createModelOf? (json : Json) : Option Operation := do
  let [name, table, fields] ← json.record? ["name", "table", "fields"] | none
  return createModel (← Json.required Json.asString? name) (← Json.optional Json.asString? table)
    (← Json.required Fields.ofJson? fields)

def deleteModelOf? (json : Json) : Option Operation := do
  let [name] ← json.record? ["name"] | none
  return deleteModel (← Json.required Json.asString? name)

def addFieldsOf? (json : Json) : Option Operation := do
  let [model, fields] ← json.record? ["model", "fields"] | none
  return addFields (← Json.required Json.asString? model) (← Json.required Fields.ofJson? fields)

def removeFieldsOf? (json : Json) : Option Operation := do
  let [model, fields] ← json.record? ["model", "fields"] | none
  return removeFields (← Json.required Json.asString? model)
    (← Json.required Json.asStrings? fields)

def addIndexOf? (json : Json) : Option Operation := do
  let [model, index, fields] ← json.record? ["model", "name", "fields"] | none
  return addIndex (← Json.required Json.asString? model) (← Json.required Json.asString? index)
    (← Json.required Json.asStrings? fields)

def removeIndexOf? (json : Json) : Option Operation := do
  let [model, index] ← json.record? ["model", "name"] | none
  return removeIndex (← Json.required Json.asString? model) (← Json.required Json.asString? index)

end Operation

end SchemaHistory
