import SchemaHistory.SchemaError
import SchemaHistory.Text.Blank

/-!
# Lookups

A lookup compares a field with a value. Its key is the name of the field, or the name and an
operator with white space between them; a name alone is compared for equality.
-/

namespace SchemaHistory

/-- How a column is compared with a value. -/
inductive Comparison where
  | equal
  | notEqual
  | greater
  | greaterOrEqual
  | less
  | lessOrEqual
deriving DecidableEq

namespace Comparison

def token : Comparison → String
  | equal => "="
  | notEqual => "!="
  | greater => ">"
  | greaterOrEqual => ">="
  | less => "<"
  | lessOrEqual => "<="

def ofToken? : String → Option Comparison
  | "=" => some equal
  | "!=" => some notEqual
  | ">" => some greater
  | ">=" => some greaterOrEqual
  | "<" => some less
  | "<=" => some lessOrEqual
  | _ => none

end Comparison

namespace LookupKey

/-- The last word of a text that does not end in white space. -/
def lastWord (cs : List Char) : List Char :=
  (cs.reverse.takeWhile fun c => !Text.isBlank c).reverse

def beforeLastWord (cs : List Char) : List Char :=
  (cs.reverse.dropWhile fun c => !Text.isBlank c).reverse

/-- The field and the comparison that a key stands for. -/
def decode (key : String) : Except SchemaError (String × Comparison) :=
  let cs := Text.trimBlanks key.toList
  match beforeLastWord cs with
  | [] => .ok (String.ofList cs, .equal)
  | before =>
    let operator := String.ofList (lastWord cs)
    match Comparison.ofToken? operator with
    | some comparison => .ok (String.ofList (Text.dropTrailingBlanks before), comparison)
    | none => .error (.unknownOperator operator)

def encode (field : String) : Comparison → String
  | .equal => field
  | comparison => s!"{field} {comparison.token}"

end LookupKey

end SchemaHistory
