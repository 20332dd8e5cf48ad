/-!
# Binary floating point numbers

`Binary64` holds the numbers of the 64-bit binary format. A finite number is a sign and an
*ordinal*, its place among the non-negative finite numbers in ascending order: 0 is zero, 1 the
least positive number, and the next number up has the next ordinal. `Binary64.ofDecimal` rounds a
decimal to the nearest number, a tie going to the even ordinal; it works in exact natural number
arithmetic throughout.
-/

namespace SchemaHistory

/-- A number of the 64-bit binary format. -/
inductive Binary64 where
  | finite (negative : Bool) (ordinal : Nat) (bounded : ordinal < 2047 * Nat.pow 2 52)
  | infinite (negative : Bool)
  | nan
deriving DecidableEq

namespace Binary64

/-- How many finite magnitudes there are; an ordinal from here on is out of range. -/
def ordinalLimit : Nat := 2047 * Nat.pow 2 52

/-- How many times the number one is halved to get the least positive number. -/
@[irreducible] def halvings : Nat := 1074

/-- Numerical equality: both zeros are equal, and nothing equals `nan`. -/
def sameNumber : Binary64 → Binary64 → Bool
  | finite n a _, finite m b _ => a == b && (n == m || a == 0)
  | infinite n, infinite m => n == m
  | _, _ => false

/-- The number with a given ordinal, in units of the least positive number. -/
def scaled (ordinal : Nat) : Nat :=
  let binade := ordinal / Nat.pow 2 52
  if binade = 0 then ordinal else (Nat.pow 2 52 + ordinal % Nat.pow 2 52) * Nat.pow 2 (binade - 1)

/-- The integer nearest to a quotient, a tie going to the even one. -/
def divHalfEven (num den : Nat) : Nat :=
  let quotient := num / den
  let remainder := num % den
  if 2 * remainder < den then quotient
  else if den < 2 * remainder then quotient + 1
  else if quotient % 2 = 0 then quotient
  else quotient + 1

/-- The ordinal of the number nearest to `num / den` times the least positive number. Within a
binade the numbers are equally spaced, so rounding there is rounding to a multiple of the
spacing. -/
def nearestOrdinal (num den : Nat) : Nat :=
  let shift := (num / den).log2 - 52
  shift * Nat.pow 2 52 + divHalfEven num (den * Nat.pow 2 shift)

/-- The ordinal of the number nearest to `digits * 10 ^ exponent`. Exponents far outside the format
are answered without computing the power. -/
def decimalOrdinal (digits : Nat) (exponent : Int) : Nat :=
  if digits = 0 then 0
  else if 400 < exponent then ordinalLimit
  else if exponent + digits.log2 < -400 then 0
  else if 0 ≤ exponent then
    nearestOrdinal (digits * Nat.pow 10 exponent.toNat * Nat.pow 2 halvings) 1
  else nearestOrdinal (digits * Nat.pow 2 halvings) (Nat.pow 10 (-exponent).toNat)

/-- The number with a given sign and ordinal, infinite from `ordinalLimit` on. -/
def ofOrdinal (negative : Bool) (ordinal : Nat) : Binary64 :=
  if h : ordinal < 2047 * Nat.pow 2 52 then finite negative ordinal h else infinite negative

def ofDecimal (negative : Bool) (digits : Nat) (exponent : Int) : Binary64 :=
  ofOrdinal negative (decimalOrdinal digits exponent)

def isFinite : Binary64 → Bool
  | finite .. => true
  | _ => false

end Binary64

end SchemaHistory
