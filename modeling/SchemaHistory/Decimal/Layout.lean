import SchemaHistory.Decimal.Shortest
import SchemaHistory.Text.Digit

/-!
# Writing numbers in decimal

A number is written with its shortest digits. A `Layout` says where the positional form ends and
the scientific one begins, whether a whole number is marked by a fraction `.0`, and what stands for
the values that are no numbers. `Binary64.ofText?` reads decimal text.
-/

namespace SchemaHistory

/-- The choices of a format that writes numbers. -/
structure Layout where
  /-- Whether a number whose leading digit has this exponent is written positionally. -/
  positional : Int → Bool
  /-- Whether a whole number in positional form is followed by `.0`. -/
  marksWhole : Bool
  /-- The text of an infinity, given its sign. -/
  infinite : Bool → String
  /-- The text of the value that is no number. -/
  nan : String

/-- Positional form for every number, and no mark on whole numbers. -/
def Layout.plain : Layout where
  positional _ := true
  marksWhole := false
  infinite negative := if negative then "-inf" else "inf"
  nan := "NaN"

namespace Binary64

/-- Puts the decimal point of `digits * 10 ^ exponent` in its place. -/
def positionalText (marksWhole : Bool) (digits : List Char) (exponent : Int) : List Char :=
  if 0 ≤ exponent then
    digits ++ List.replicate exponent.toNat '0' ++ if marksWhole then ['.', '0'] else []
  else
    let places := (-exponent).toNat
    if places < digits.length then
      digits.take (digits.length - places) ++ '.' :: digits.drop (digits.length - places)
    else '0' :: '.' :: Text.zeroPadded places digits

/-- One digit before the point, then the exponent with its sign. -/
def scientificText (digits : List Char) (lead : Int) : List Char :=
  let mantissa := match digits with
    | first :: second :: rest => first :: '.' :: second :: rest
    | short => short
  let sign := if lead < 0 then '-' else '+'
  mantissa ++ 'e' :: sign :: Text.digitsOfNumber lead.natAbs

def magnitudeText (layout : Layout) (ordinal : Nat) : List Char :=
  let (digits, exponent) := if ordinal = 0 then (0, 0) else shortest ordinal
  let chars := Text.digitsOfNumber digits
  let lead := exponent + chars.length - 1
  if layout.positional lead then positionalText layout.marksWhole chars exponent
  else scientificText chars lead

def text (layout : Layout) : Binary64 → String
  | finite negative ordinal _ =>
    String.ofList ((if negative then ['-'] else []) ++ magnitudeText layout ordinal)
  | infinite negative => layout.infinite negative
  | nan => layout.nan

def spanDigits (cs : List Char) : List Char × List Char := cs.span Char.isDigit

/-- Reads an exponent such as `e-7`, or nothing at all, up to the end. -/
def readExponent? : List Char → Option Int
  | [] => some 0
  | mark :: rest =>
    let (negative, digits) := match rest with
      | '-' :: digits => (true, digits)
      | '+' :: digits => (false, digits)
      | digits => (false, digits)
    if (mark == 'e' || mark == 'E') && !digits.isEmpty && digits.all Char.isDigit then
      let size : Int := Text.numberOfDigits digits
      some (if negative then -size else size)
    else none

/-- Reads a decimal without a sign: digits with a point anywhere among them or none, then an
exponent or none. -/
def readMagnitude? (negative : Bool) (cs : List Char) : Option Binary64 := do
  let (whole, rest) := spanDigits cs
  let (fraction, rest) := match rest with
    | '.' :: rest => spanDigits rest
    | rest => ([], rest)
  if whole.isEmpty && fraction.isEmpty then none
  else
    let exponent ← readExponent? rest
    some (ofDecimal negative (Text.numberOfDigits (whole ++ fraction)) (exponent - fraction.length))

/-- Reads a number in decimal notation, or the name of a value that is no number. -/
def ofText? (s : String) : Option Binary64 :=
  let (negative, rest) := match s.toList with
    | '-' :: rest => (true, rest)
    | '+' :: rest => (false, rest)
    | rest => (false, rest)
  match String.ofList (rest.map Char.toLower) with
  | "inf" | "infinity" => some (infinite negative)
  | "nan" => some nan
  | _ => readMagnitude? negative rest

end Binary64

end SchemaHistory
