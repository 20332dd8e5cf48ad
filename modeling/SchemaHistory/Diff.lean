import SchemaHistory.AppSchema

/-!
# From a state to declared models

`AppSchema.diff` lists the operations that lead from the state of an app to the models declared for
it. Models, fields and indexes are added and removed; an index that changed is removed and added. A
field that is defined differently is left as it is, but `AppSchema.altered` reports it.
-/

namespace SchemaHistory

namespace Model

/-- The indexes of one model that another does not have in the same way. -/
def indexesNotIn (model other : Model) : Indexes :=
  model.indexes.filter fun (index, fields) => other.indexes.get? index ≠ some fields

def fieldsNotIn (model other : Model) : Fields :=
  model.fields.filter fun (name, _) => !other.fields.has name

def creation (declared : Model) : List Operation :=
  let table := if declared.hasUsualTable then none else some declared.table
  .createModel declared.name table declared.fields ::
    declared.indexes.map fun (index, fields) => .addIndex declared.name index fields

/-- The operations that lead from one model to another of the same name. -/
def changes (prior declared : Model) : List Operation :=
  let dropped := prior.indexesNotIn declared
  let removed := (prior.fieldsNotIn declared).names
  let added := declared.fieldsNotIn prior
  let created := declared.indexesNotIn prior
  dropped.map (fun (index, _) => .removeIndex declared.name index) ++
    (if removed.isEmpty then [] else [.removeFields declared.name removed]) ++
    (if added.isEmpty then [] else [.addFields declared.name added]) ++
    created.map fun (index, fields) => .addIndex declared.name index fields

end Model

namespace AppSchema

def changesFor (state : AppSchema) (declared : Model) : List Operation :=
  match state.model? declared.name with
  | some prior => prior.changes declared
  | none => declared.creation

def undeclared (state : AppSchema) (declared : List Model) : List String :=
  state.models.names.filter fun name => !declared.any (·.name == name)

def diff (state : AppSchema) (declared : List Model) : List Operation :=
  declared.flatMap state.changesFor ++ (state.undeclared declared).map .deleteModel

/-- A field that is defined differently from what the state holds. -/
structure FieldChange where
  model : String
  field : String
  recorded : Field
  declared : Field

/-- The fields of a declared model that are defined differently from those of a recorded one. -/
def alteredIn (prior declared : Model) : List FieldChange :=
  declared.fields.filterMap fun (name, field) =>
    match prior.field? name with
    | some recorded =>
      if recorded.same field then none else some ⟨declared.name, name, recorded, field⟩
    | none => none

def altered (state : AppSchema) (declared : List Model) : List FieldChange :=
  declared.flatMap fun model => match state.model? model.name with
    | some prior => alteredIn prior model
    | none => []

end AppSchema

end SchemaHistory
