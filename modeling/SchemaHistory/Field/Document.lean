import SchemaHistory.Field
import SchemaHistory.Json.Record

/-!
# Fields in documents

A field is written as an object with one member: the kind as the key, the options in an object.
Options that say nothing beyond the usual are left out. Members that are no options of the kind do
not matter when reading, but have to stand for something.
-/

namespace SchemaHistory

/-- Fields by name, in the order in which they are declared. -/
abbrev Fields := Named Field

namespace Field

open Json

/-- A flag, left out when it is not set. -/
def flagMember (key : String) (flag : Bool) : List (String × Json) :=
  if flag then [(key, .bool true)] else []

def kindMembers : FieldKind → List (String × Json)
  | .char maxLength => [("max_length", .integer maxLength.toNat)]
  | .dateTime stampedOnAdd stampedOnChange =>
    flagMember "auto_now_add" stampedOnAdd ++ flagMember "auto_now" stampedOnChange
  | _ => []

def optionMembers (field : Field) : List (String × Json) :=
  flagMember "null" field.null ++ flagMember "primary_key" field.primaryKey ++
    flagMember "unique" field.unique ++ flagMember "index" field.index ++
    (field.column.map fun column => ("column", Json.string column)).toList ++
    (field.default.map fun value => ("default", Json.scalar value.toScalar)).toList

def toJson (field : Field) : Json :=
  .object [(field.kind.name, .object (kindMembers field.kind ++ field.optionMembers))]

def text (field : Field) : String := field.toJson.compact

def kindOf? (name : String) (members : List (String × Json)) : Option FieldKind := do
  match name with
  | "IntegerField" => some .integer
  | "AutoField" => some .auto
  | "BooleanField" => some .boolean
  | "CharField" =>
    let [maxLength] ← objectMembers? ["max_length"] members | none
    return .char (← required asUInt64? maxLength)
  | "TextField" => some .text
  | "FloatField" => some .float
  | "DateField" => some .date
  | "TimeField" => some .time
  | "DateTimeField" =>
    let [onAdd, onChange] ← objectMembers? ["auto_now_add", "auto_now"] members | none
    return .dateTime (← withDefault false asBool? onAdd) (← withDefault false asBool? onChange)
  | _ => none

def optionNames : List String := ["null", "primary_key", "unique", "index", "column", "default"]

/-- Reads a field whose default is what the document holds. -/
def ofJsonUncoerced? : Json → Option Field
  | .object [(name, .object members)] => do
    guard (membersAreRead members)
    let kind ← kindOf? name members
    let [null, primaryKey, unique, index, column, default] ← objectMembers? optionNames members
      | none
    return {
      kind
      null := ← withDefault false asBool? null
      primaryKey := ← withDefault false asBool? primaryKey
      unique := ← withDefault false asBool? unique
      index := ← withDefault false asBool? index
      column := ← optional asString? column
      default := ← optional Value.ofJson? default
    }
  | _ => none

/-- Reads a field. Its default becomes what its column holds, where the text allows it. -/
def ofJson? (json : Json) : Option Field := (ofJsonUncoerced? json).map coerced

def read? (s : String) : Option Field := (Json.read? s).bind ofJson?

end Field

namespace Fields

def toJson (fields : Fields) : Json :=
  .object (fields.map fun (name, field) => (name, field.toJson))

/-- Reads fields. The last of several fields with one name counts, at the place of the first. -/
def ofJson? (json : Json) : Option Fields := do
  let fields ← (← json.asObject?).mapM fun (name, member) => do
    return (name, ← Field.ofJson? member)
  return fields.foldl (fun done (name, field) => done.set name field) []

end Fields

end SchemaHistory
