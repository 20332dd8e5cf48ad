import SchemaHistory.Json.Tree

/-!
# Records in documents

A record is written as an object with the names of its members, or as an array of its members in
order. `Json.record?` brings both forms to one: the value of each known member, where it is written.
An object may hold members that the record does not know, but none of its own twice.
-/

namespace SchemaHistory.Json

/-- The value of a member, where it is written; nothing at all if it is written twice. -/
def member? (key : String) (members : List (String × Json)) : Option (Option Json) :=
  match members.filter (·.1 = key) with
  | [] => some none
  | [(_, value)] => some (some value)
  | _ => none

/-- The values of the named members of an object, in the order of the names. -/
def objectMembers? (names : List String) (members : List (String × Json)) :
    Option (List (Option Json)) :=
  names.mapM (member? · members)

/-- The values of the named members of a record, in the order of the names. -/
def record? (names : List String) : Json → Option (List (Option Json))
  | object members => objectMembers? names members
  | array items =>
    if items.length ≤ names.length then
      some (items.map some ++ List.replicate (names.length - items.length) none)
    else none
  | scalar _ | unread => none

def asString? : Json → Option String
  | .scalar (.string s) => some s
  | _ => none

def asBool? : Json → Option Bool
  | .scalar (.bool b) => some b
  | _ => none

def asUInt64? : Json → Option UInt64
  | .scalar (.integer n) =>
    if 0 ≤ n ∧ n.toNat < UInt64.size then some (UInt64.ofNat n.toNat) else none
  | _ => none

def asArray? : Json → Option (List Json)
  | .array items => some items
  | _ => none

def asObject? : Json → Option (List (String × Json))
  | .object members => some members
  | _ => none

def asStrings? (json : Json) : Option (List String) := do
  (← json.asArray?).mapM asString?

/-- Reads a member that must be written. -/
def required {α : Type} (read : Json → Option α) (written : Option Json) : Option α :=
  written.bind read

/-- Reads a member that has a value of its own when it is not written. -/
def withDefault {α : Type} (default : α) (read : Json → Option α) : Option Json → Option α
  | none => some default
  | some json => read json

/-- Reads a member that may be missing or `null`. -/
def optional {α : Type} (read : Json → Option α) : Option Json → Option (Option α)
  | none | some (.scalar .null) => some none
  | some json => (read json).map some

end SchemaHistory.Json
