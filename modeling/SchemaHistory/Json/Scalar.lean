import SchemaHistory.Decimal.Layout
import SchemaHistory.Json.Quoted

/-!
# Scalars

The values of JSON that hold no other values, their text, and the reading of the words `null`,
`true`, `false` and numbers. A number written without point and exponent is an integer if it fits
64 bits, signed for the negative and unsigned for the others; every other number is a float.
-/

namespace SchemaHistory.Json

/-- A value that holds no other values. -/
inductive Scalar where
  | null
  | bool (value : Bool)
  | integer (value : Int)
  | float (value : Binary64)
  | string (value : String)
deriving DecidableEq

/-- Numbers are positional while the leading digit has an exponent from -5 to 15, whole numbers keep
a fraction, and what is no number is `null`. -/
def numberLayout : Layout where
  positional lead := -5 ≤ lead && lead ≤ 15
  marksWhole := true
  infinite _ := "null"
  nan := "null"

def integerText (n : Int) : List Char :=
  (if n < 0 then ['-'] else []) ++ Text.digitsOfNumber n.natAbs

def Scalar.text : Scalar → List Char
  | null => "null".toList
  | bool true => "true".toList
  | bool false => "false".toList
  | integer n => integerText n
  | float x => (x.text numberLayout).toList
  | string s => '"' :: Quoted.encode s.toList ++ ['"']

/-- Whether the digits of a whole part are well formed: one at least, and no leading zero. -/
def wholeDigits (cs : List Char) : Bool :=
  match cs with
  | ['0'] => true
  | c :: _ => c != '0'
  | [] => false

/-- An integer if it fits 64 bits, otherwise a float. -/
def Scalar.ofWholeNumber (negative : Bool) (n : Nat) : Scalar :=
  if negative then
    if 0 < n ∧ n ≤ Nat.pow 2 63 then .integer (-n) else .float (.ofDecimal true n 0)
  else if n < UInt64.size then .integer n
  else .float (.ofDecimal false n 0)

def Scalar.readNumber? (negative : Bool) (cs : List Char) : Option Scalar := do
  let (whole, rest) := Binary64.spanDigits cs
  guard (wholeDigits whole)
  match rest with
  | [] => return .ofWholeNumber negative (Text.numberOfDigits whole)
  | _ =>
    let (fraction, rest) ← match rest with
      | '.' :: rest =>
        let (fraction, rest) := Binary64.spanDigits rest
        if fraction.isEmpty then none else some (fraction, rest)
      | rest => some ([], rest)
    let exponent ← Binary64.readExponent? rest
    return .float (.ofDecimal negative (Text.numberOfDigits (whole ++ fraction))
      (exponent - fraction.length))

/-- Whether a scalar is no number too large for a float. -/
def Scalar.isInRange : Scalar → Bool
  | float x => x.isFinite
  | _ => true

def Scalar.ofWord? (cs : List Char) : Option Scalar :=
  if cs = "null".toList then some null
  else if cs = "true".toList then some (bool true)
  else if cs = "false".toList then some (bool false)
  else match cs with
    | '-' :: rest => readNumber? true rest
    | rest => readNumber? false rest

end SchemaHistory.Json
