import SchemaHistory.Decimal.Binary64

/-!
# Shortest decimals

`Binary64.shortest` finds the decimal with the fewest digits that reads back as a given number, the
one nearest to the number where there are several. It tries 1, 2, … 17 digits in turn. On each grid
only the two neighbours of the number can be the nearest point, so only these two are tried, by
reading them back with `decimalOrdinal`.
-/

namespace SchemaHistory.Binary64

/-- A quotient of natural numbers equal to the number with the given scaled value, in units of
`10 ^ exponent`. -/
def inUnitsOf (exponent : Int) (scaledValue : Nat) : Nat × Nat :=
  if 0 ≤ exponent then (scaledValue, Nat.pow 2 halvings * Nat.pow 10 exponent.toNat)
  else (scaledValue * Nat.pow 10 (-exponent).toNat, Nat.pow 2 halvings)

/-- The multiple of `10 ^ exponent` nearest to the number, if one of the two neighbours of the
number among these multiples reads back as the number. -/
def onGrid? (ordinal : Nat) (exponent : Int) : Option (Nat × Int) :=
  let (num, den) := inUnitsOf exponent (scaled ordinal)
  let below := num / den
  let readsBack (digits : Nat) := decimalOrdinal digits exponent == ordinal
  match readsBack below, readsBack (below + 1) with
  | true, true => some (divHalfEven num den, exponent)
  | true, false => some (below, exponent)
  | false, true => some (below + 1, exponent)
  | false, false => none

def leadingExponent (ordinal : Nat) : Int :=
  (Nat.toDigits 10 (scaled ordinal * Nat.pow 10 400 / Nat.pow 2 halvings)).length - (401 : Int)

/-- Moves the trailing zeros of the digits into the exponent. -/
def withoutTrailingZeros (digits : Nat) (exponent : Int) : Nat × Int :=
  if h : 0 < digits ∧ digits % 10 = 0 then
    withoutTrailingZeros (digits / 10) (exponent + 1)
  else (digits, exponent)
termination_by digits
decreasing_by omega

/-- A decimal that reads back as the number with the given ordinal, with as few digits as a grid of
the leading digit allows. Should no grid have one, the exact expansion does. -/
def onFirstGrid (ordinal : Nat) : Nat × Int :=
  let lead := leadingExponent ordinal
  let found := (List.range 17).findSome? fun (places : Nat) => onGrid? ordinal (lead - places)
  found.getD (scaled ordinal * Nat.pow 5 halvings, -halvings)

/-- The shortest decimal `digits * 10 ^ exponent` that reads back as the number with the given
ordinal. -/
def shortest (ordinal : Nat) : Nat × Int :=
  let found := onFirstGrid ordinal
  withoutTrailingZeros found.1 found.2

end SchemaHistory.Binary64
