import SchemaHistory.Field.Document
import SchemaHistory.SchemaError
import SchemaHistory.Text.Lowercase

/-!
# Models

A `Model` is the shape of one table at some point of its history: its fields in the order declared,
the field that is its primary key, the name of the table, and its indexes by name. A
`Declaration` is what a program says about a model; `Declaration.build` adds what goes without
saying. A model has one key, an index has at least one field, and all fields of an index are fields
of the model; every change that would break this is refused.
-/

namespace SchemaHistory

/-- The fields of each index, in the order of index names. -/
abbrev Indexes := Named (List String)

/-- The name of a table when none is given. -/
def usualTable (app model : String) : String :=
  s!"{Text.lowercase app}_{Text.lowercase model}"

/-- The shape of a table at some point of its history. -/
structure Model where
  app : String
  name : String
  table : String
  /-- The name of the field that is the primary key. -/
  key : String
  fields : Fields
  indexes : Indexes
deriving DecidableEq

namespace Model

/-! ### What can be told of a model -/

def field? (model : Model) (name : String) : Option Field := model.fields.get? name

def column (model : Model) (field : String) : Except SchemaError String :=
  match model.field? field with
  | some f => .ok (f.columnName field)
  | none => .error (.unknownField model.name field)

def columns (model : Model) : List String :=
  model.fields.map fun (name, field) => field.columnName name

/-- Whether the table has the name it would have anyway. -/
def hasUsualTable (model : Model) : Bool :=
  model.table == usualTable model.app model.name

/-- The same columns in a table of another name, without indexes. -/
def inTable (model : Model) (table : String) : Model := { model with table, indexes := [] }

def fault (model : Model) (fault : ModelFault) : SchemaError := .faultyModel model.name fault

def isIndexed (model : Model) (name : String) : Bool :=
  model.indexes.any fun (_, fields) => fields.contains name

end Model

/-! ### Changes of a model -/

/-- A change of a model. The model is kept also where the change fails, so it matters whether a
change checks before it writes. -/
abbrev Revision := EStateM SchemaError Model

/-- Carries out a change on a model. Where it fails, the error is all that is left. -/
def Revision.outcome {α : Type} (revision : Revision α) (model : Model) :
    Except SchemaError (α × Model) :=
  match revision model with
  | .ok a model => .ok (a, model)
  | .error e _ => .error e

def Revision.require {α : Type} (e : SchemaError) : Option α → Revision α
  | some a => pure a
  | none => throw e

/-- An error if there is something, which it tells of. -/
def Revision.refuseAny {α : Type} (e : α → SchemaError) : Option α → Revision Unit
  | some a => throw (e a)
  | none => pure ()

namespace Model

/-- Adds a field at the end. -/
def addField (name : String) (field : Field) : Revision Unit := do
  let model ← get
  if model.fields.has name then throw (model.fault (.duplicateField name))
  if field.isPrimaryKey then throw (model.fault (.secondKey name))
  set { model with fields := model.fields.set name field }

/-- Removes a field. That there is none shows only when it is removed. -/
def removeField (name : String) : Revision Field := do
  let model ← get
  if model.key = name then throw (model.fault .keyRemoved)
  if model.isIndexed name then throw (model.fault (.indexedFieldRemoved name))
  set { model with fields := model.fields.erase name }
  Revision.require (.unknownField model.name name) (model.field? name)

def addIndex (name : String) (fields : List String) : Revision Unit := do
  let model ← get
  if model.indexes.has name then throw (model.fault (.duplicateIndex name))
  if fields.isEmpty then throw (model.fault (.emptyIndex name))
  Revision.refuseAny (.unknownField model.name) (fields.find? fun field => !model.fields.has field)
  set { model with indexes := model.indexes.insert name fields }

/-- Removes an index. That there is none shows only when it is removed. -/
def removeIndex (name : String) : Revision (List String) := do
  let model ← get
  set { model with indexes := model.indexes.erase name }
  Revision.require (model.fault (.unknownIndex name)) (model.indexes.get? name)

def withField (model : Model) (name : String) (field : Field) : Except SchemaError Model :=
  ((addField name field).outcome model).map (·.2)

def withoutField (model : Model) (name : String) : Except SchemaError (Field × Model) :=
  (removeField name).outcome model

def withIndex (model : Model) (name : String) (fields : List String) : Except SchemaError Model :=
  ((addIndex name fields).outcome model).map (·.2)

def withoutIndex (model : Model) (name : String) : Except SchemaError (List String × Model) :=
  (removeIndex name).outcome model

/-- Whether two models are alike. The order of fields does not matter, and floats are compared as
numbers. -/
def same (a b : Model) : Bool :=
  a.app == b.app && a.name == b.name && a.table == b.table && a.key == b.key &&
    a.fields.sameBy Field.same b.fields && a.indexes == b.indexes

/-! ### Models from their parts -/

def keysOf (fields : Fields) : List String :=
  Named.names (fields.filter fun (_, field) => field.isPrimaryKey)

/-- The model with the given parts. The indexes are checked in the order of their names. -/
def ofParts (app name table : String) (fields : Fields) (indexes : Indexes) :
    Except SchemaError Model :=
  match keysOf fields with
  | [key] =>
    indexes.foldlM (fun model (index, fields) => model.withIndex index fields)
      { app, name, table, key, fields, indexes := [] }
  | [] => .error (.faultyModel name .missingKey)
  | _ :: second :: _ => .error (.faultyModel name (.secondKey second))

end Model

namespace Indexes

/-- Reads indexes. The last of several indexes with one name counts. -/
def ofJson? (json : Json) : Option Indexes := do
  let indexes ← (← json.asObject?).mapM fun (name, fields) => do
    return (name, ← fields.asStrings?)
  return indexes.foldl (fun done (name, fields) => done.insert name fields) []

end Indexes

/-! ### Declarations -/

/-- What a program says about a model. -/
structure Declaration where
  name : String
  table : Option String := none
  fields : Fields := []
  indexes : Indexes := []

namespace Declaration

/-- The fields with a key: the one declared, or else a counted field `id` in front. -/
def keyedFields (declaration : Declaration) : Except SchemaError Fields :=
  match Model.keysOf declaration.fields with
  | _ :: second :: _ => .error (.faultyModel declaration.name (.secondKey second))
  | [_] => .ok declaration.fields
  | [] =>
    if declaration.fields.has "id" then .error (.faultyModel declaration.name .idIsNoKey)
    else .ok (("id", .ofKind .auto) :: declaration.fields)

/-- The name of the index that a field asks for. -/
def indexName (app model field : String) : String :=
  s!"{Text.lowercase app}_{Text.lowercase model}_{Text.lowercase field}_auto_idx"

/-- The declared indexes together with those that fields ask for. -/
def allIndexes (app : String) (declaration : Declaration) (fields : Fields) :
    Except SchemaError Indexes :=
  (fields.filter fun (_, field) => field.wantsIndex).foldlM (fun indexes (name, _) =>
    let index := indexName app declaration.name name
    if indexes.has index then .error (.faultyModel declaration.name (.duplicateIndex index))
    else .ok (indexes.insert index [name])) declaration.indexes

def build (app : String) (declaration : Declaration) : Except SchemaError Model := do
  let fields ← declaration.keyedFields
  let indexes ← declaration.allIndexes app fields
  let table := declaration.table.getD (usualTable app declaration.name)
  Model.ofParts app declaration.name table fields indexes

def ofJson? (json : Json) : Option Declaration := do
  let [name, table, fields, indexes] ← json.record? ["name", "table", "fields", "indexes"] | none
  return {
    name := ← Json.required Json.asString? name
    table := ← Json.optional Json.asString? table
    fields := ← Json.withDefault [] Fields.ofJson? fields
    indexes := ← Json.withDefault [] Indexes.ofJson? indexes
  }

def read? (s : String) : Option Declaration := (Json.read? s).bind ofJson?

def readAll? (s : String) : Option (List Declaration) := do
  (← (← Json.read? s).asArray?).mapM ofJson?

end Declaration

end SchemaHistory
