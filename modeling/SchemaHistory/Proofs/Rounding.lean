import SchemaHistory.Decimal.Shortest
import Mathlib.Algebra.Order.Ring.Nat

/-!
# Rounding decimals

Rounding asks for the value of a decimal only, not for how it is written
(`Binary64.nearestOrdinal_mul`, `Binary64.decimalOrdinal_mul_pow`), and a value that a number has is
rounded to this number (`Binary64.nearestOrdinal_scaled`). So the shortest decimal of a number reads
back as it (`Binary64.decimalOrdinal_shortest`).
-/

namespace SchemaHistory.Binary64

variable {num den factor ordinal digits : Nat} {exponent : Int}

/-! ### Quotients -/

/-- A common factor does not change the rounded quotient. -/
theorem divHalfEven_mul (hfactor : 0 < factor) :
    divHalfEven (factor * num) (factor * den) = divHalfEven num den := by
  have hless : ∀ a b, factor * a < factor * b ↔ a < b := fun a b => Nat.mul_lt_mul_left hfactor
  simp only [divHalfEven, Nat.mul_div_mul_left _ _ hfactor, Nat.mul_mod_mul_left,
    Nat.mul_left_comm 2 factor, hless]

theorem divHalfEven_mul_self (hden : 0 < den) : divHalfEven (num * den) den = num := by
  simp only [divHalfEven, Nat.mul_div_cancel _ hden, Nat.mul_mod_left]
  rw [if_pos (by omega)]

/-- Less than half is rounded to zero. -/
theorem divHalfEven_of_lt (h : 2 * num < den) : divHalfEven num den = 0 := by
  have hquotient : num / den = 0 := Nat.div_eq_of_lt (by omega)
  have hremainder : num % den = num := Nat.mod_eq_of_lt (by omega)
  simp only [divHalfEven, hquotient, hremainder]
  rw [if_pos h]

/-! ### The nearest number -/

/-- Only the value of the quotient counts. -/
theorem nearestOrdinal_mul (hfactor : 0 < factor) :
    nearestOrdinal (factor * num) (factor * den) = nearestOrdinal num den := by
  simp only [nearestOrdinal, Nat.mul_div_mul_left _ _ hfactor, Nat.mul_assoc,
    divHalfEven_mul hfactor]

theorem nearestOrdinal_of_lt (h : 2 * num < den) : nearestOrdinal num den = 0 := by
  have hquotient : num / den = 0 := Nat.div_eq_of_lt (by omega)
  have hshift : Nat.log2 0 - 52 = 0 := rfl
  simp only [nearestOrdinal, hquotient, hshift, Nat.zero_mul, Nat.zero_add, Nat.pow_eq,
    Nat.pow_zero, Nat.mul_one]
  exact divHalfEven_of_lt h

/-- In the binades above the first, the leading digit of the value tells the binade. -/
theorem log2_of_binade {mantissa shift : Nat} (h : mantissa < 2 ^ 52) :
    ((2 ^ 52 + mantissa) * 2 ^ shift).log2 = 52 + shift := by
  have hpos : 0 < 2 ^ shift := Nat.two_pow_pos shift
  have hne : (2 ^ 52 + mantissa) * 2 ^ shift ≠ 0 :=
    Nat.mul_ne_zero (by omega) (Nat.ne_of_gt hpos)
  rw [Nat.log2_eq_iff hne]
  constructor
  · rw [Nat.pow_add]
    exact Nat.mul_le_mul_right _ (Nat.le_add_right _ _)
  · rw [Nat.add_right_comm, Nat.pow_add]
    exact Nat.mul_lt_mul_of_pos_right (by omega) hpos

/-- The value of a number is rounded to this number. -/
theorem nearestOrdinal_scaled (hden : 0 < den) :
    nearestOrdinal (scaled ordinal * den) den = ordinal := by
  have hsplit := Nat.div_add_mod' ordinal (2 ^ 52)
  have hmod : ordinal % 2 ^ 52 < 2 ^ 52 := Nat.mod_lt _ (by decide)
  simp only [nearestOrdinal, Nat.mul_div_cancel _ hden, scaled, Nat.pow_eq]
  by_cases hbinade : ordinal / 2 ^ 52 = 0
  · have hlog : ordinal.log2 - 52 = 0 := by
      by_cases hzero : ordinal = 0
      · rw [hzero]
        rfl
      · have hlt : ordinal.log2 < 52 := (Nat.log2_lt hzero).mpr (by omega)
        omega
    rw [if_pos hbinade, hlog, Nat.zero_mul, Nat.zero_add, Nat.pow_zero, Nat.mul_one,
      divHalfEven_mul_self hden]
  · rw [if_neg hbinade, log2_of_binade hmod, Nat.add_sub_cancel_left, Nat.mul_assoc,
      Nat.mul_comm (2 ^ _) den,
      divHalfEven_mul_self (Nat.mul_pos hden (Nat.two_pow_pos _))]
    generalize ordinal / 2 ^ 52 = binade at *
    obtain ⟨below, rfl⟩ := Nat.exists_eq_succ_of_ne_zero hbinade
    rw [Nat.succ_sub_one]
    rw [Nat.succ_mul, Nat.add_assoc] at hsplit
    exact hsplit

theorem divHalfEven_le : divHalfEven num den ≤ num / den + 1 := by
  simp only [divHalfEven]
  split
  · omega
  split
  · omega
  split
  · omega
  · omega

/-- The binade of the nearest number is that of the value, or the next one. -/
theorem nearestOrdinal_le :
    nearestOrdinal num den ≤ ((num / den).log2 - 52 + 2) * 2 ^ 52 := by
  simp only [nearestOrdinal, Nat.pow_eq]
  generalize hshift : (num / den).log2 - 52 = shift
  have hvalue : num / den < 2 ^ (53 + shift) :=
    Nat.lt_log2_self.trans_le (Nat.pow_le_pow_right (by decide) (by omega))
  have hmantissa : num / (den * 2 ^ shift) < 2 ^ 53 := by
    rw [← Nat.div_div_eq_div_mul, Nat.div_lt_iff_lt_mul (Nat.two_pow_pos shift), ← Nat.pow_add]
    exact hvalue
  have hrounded : divHalfEven num (den * 2 ^ shift) ≤ num / (den * 2 ^ shift) + 1 :=
    divHalfEven_le
  rw [Nat.add_mul]
  exact Nat.add_le_add_left (by omega) _

/-! ### Decimals -/

theorem halvings_eq : halvings = 1074 := by
  unfold halvings
  rfl

/-- A decimal place is worth at least three binary ones. -/
theorem two_pow_le_ten_pow (places : Nat) : 2 ^ (3 * places) ≤ 10 ^ places := by
  rw [Nat.pow_mul]
  exact Nat.pow_le_pow_left (by decide) places

/-- A decimal far below the least number is nearest to zero. -/
theorem two_mul_lt_of_tiny (hsmall : exponent + digits.log2 < -400) :
    2 * (digits * 2 ^ halvings) < 10 ^ (-exponent).toNat := by
  have hplaces : digits.log2 + 1 + halvings + 1 ≤ 3 * (-exponent).toNat := by
    rw [halvings_eq]
    omega
  calc 2 * (digits * 2 ^ halvings)
      < 2 * (2 ^ (digits.log2 + 1) * 2 ^ halvings) := by
        have := Nat.mul_lt_mul_of_pos_right (Nat.lt_log2_self (n := digits))
          (Nat.two_pow_pos halvings)
        omega
    _ = 2 ^ (digits.log2 + 1 + halvings + 1) := by
        rw [← Nat.pow_add, ← Nat.pow_succ']
    _ ≤ 2 ^ (3 * (-exponent).toNat) := Nat.pow_le_pow_right (by decide) hplaces
    _ ≤ 10 ^ (-exponent).toNat := two_pow_le_ten_pow _

/-- The shortcuts make no difference, but for decimals far above the largest number. -/
theorem decimalOrdinal_eq (h : exponent ≤ 400) : decimalOrdinal digits exponent
    = nearestOrdinal (digits * 10 ^ exponent.toNat * 2 ^ halvings) (10 ^ (-exponent).toNat) := by
  simp only [decimalOrdinal, Nat.pow_eq]
  by_cases hdigits : digits = 0
  · rw [if_pos hdigits, hdigits, Nat.zero_mul, Nat.zero_mul,
      nearestOrdinal_of_lt (Nat.pow_pos (by decide))]
  rw [if_neg hdigits, if_neg (by omega)]
  by_cases hsmall : exponent + digits.log2 < -400
  · have hnegative : exponent.toNat = 0 := by omega
    rw [if_pos hsmall, hnegative, Nat.pow_zero, Nat.mul_one,
      nearestOrdinal_of_lt (two_mul_lt_of_tiny hsmall)]
  rw [if_neg hsmall]
  by_cases hsign : 0 ≤ exponent
  · have hnone : (-exponent).toNat = 0 := by omega
    rw [if_pos hsign, hnone, Nat.pow_zero]
  · have hnone : exponent.toNat = 0 := by omega
    rw [if_neg hsign, hnone, Nat.pow_zero, Nat.mul_one]

/-- A digit zero at the end may go into the exponent. -/
theorem decimalOrdinal_mul_ten (h : exponent < 400) :
    decimalOrdinal (digits * 10) exponent = decimalOrdinal digits (exponent + 1) := by
  rw [decimalOrdinal_eq (by omega), decimalOrdinal_eq (by omega)]
  by_cases hsign : 0 ≤ exponent
  · have hup : (exponent + 1).toNat = exponent.toNat + 1 := by omega
    have hnone : (-exponent).toNat = (-(exponent + 1)).toNat := by omega
    rw [hup, hnone, Nat.pow_succ', Nat.mul_assoc digits 10]
  · have hdown : (-exponent).toNat = (-(exponent + 1)).toNat + 1 := by omega
    have hnone : exponent.toNat = (exponent + 1).toNat := by omega
    rw [hdown, hnone, Nat.pow_succ', Nat.mul_comm digits 10, Nat.mul_assoc 10, Nat.mul_assoc 10,
      nearestOrdinal_mul (by decide)]

/-- Zeros may be written at the end of the digits or left to the exponent. -/
theorem decimalOrdinal_mul_pow {zeros : Nat} (h : exponent + zeros ≤ 400) :
    decimalOrdinal (digits * 10 ^ zeros) exponent = decimalOrdinal digits (exponent + zeros) := by
  induction zeros generalizing exponent with
  | zero => simp
  | succ zeros ih =>
      rw [Nat.pow_succ, ← Nat.mul_assoc, decimalOrdinal_mul_ten (by omega), ih (by omega)]
      congr 1
      omega

/-- Decimals with large exponents are out of range. -/
theorem ordinalLimit_le_decimalOrdinal (hdigits : 0 < digits) (h : 400 ≤ exponent) :
    ordinalLimit ≤ decimalOrdinal digits exponent := by
  by_cases hlarge : 400 < exponent
  · rw [decimalOrdinal, if_neg (by omega), if_pos hlarge]
  have hnone : (-exponent).toNat = 0 := by omega
  rw [decimalOrdinal_eq (by omega), hnone, Nat.pow_zero]
  generalize hvalue : digits * 10 ^ exponent.toNat * 2 ^ halvings = value
  have hlower : 2 ^ (3 * exponent.toNat + halvings) ≤ value := by
    rw [Nat.pow_add, ← hvalue]
    exact Nat.mul_le_mul_right _
      ((two_pow_le_ten_pow _).trans (Nat.le_mul_of_pos_left _ hdigits))
  have hlog : 3 * exponent.toNat + halvings ≤ value.log2 :=
    (Nat.le_log2 (Nat.ne_of_gt ((Nat.two_pow_pos _).trans_le hlower))).mpr hlower
  rw [halvings_eq] at hlog
  simp only [nearestOrdinal, Nat.div_one, ordinalLimit]
  exact (Nat.mul_le_mul_right _ (by omega)).trans (Nat.le_add_right _ _)

/-- Integers of 64 bits are in range. -/
theorem decimalOrdinal_lt_ordinalLimit (h : digits < 2 ^ 64) :
    decimalOrdinal digits 0 < ordinalLimit := by
  have hexponent : (0 : Int).toNat = 0 ∧ (-0 : Int).toNat = 0 := ⟨rfl, rfl⟩
  rw [decimalOrdinal_eq (by omega), hexponent.1, hexponent.2, Nat.pow_zero, Nat.mul_one]
  have hlog : (digits * 2 ^ halvings / 1).log2 < 64 + halvings := by
    rw [Nat.div_one]
    by_cases hzero : digits * 2 ^ halvings = 0
    · rw [hzero]
      exact Nat.lt_of_lt_of_le (by decide) (Nat.le_add_right 64 _)
    · rw [Nat.log2_lt hzero, Nat.pow_add]
      exact Nat.mul_lt_mul_of_pos_right h (Nat.two_pow_pos _)
  rw [halvings_eq] at hlog
  refine nearestOrdinal_le.trans_lt ?_
  simp only [ordinalLimit, Nat.pow_eq]
  exact Nat.mul_lt_mul_of_pos_right (by rw [halvings_eq]; omega) (Nat.two_pow_pos _)

/-! ### The shortest decimal -/

/-- Without its trailing zeros a decimal is rounded to the same number. -/
theorem decimalOrdinal_withoutTrailingZeros (h : decimalOrdinal digits exponent < ordinalLimit) :
    decimalOrdinal (withoutTrailingZeros digits exponent).1 (withoutTrailingZeros digits exponent).2
      = decimalOrdinal digits exponent := by
  fun_induction withoutTrailingZeros digits exponent with
  | case2 => rfl
  | case1 digits exponent hzeros ih =>
      have hexponent : exponent < 400 := by
        by_contra hlarge
        exact absurd (ordinalLimit_le_decimalOrdinal hzeros.1 (not_lt.mp hlarge)) (not_le.mpr h)
      have hsame : decimalOrdinal (digits / 10) (exponent + 1) =
        decimalOrdinal digits exponent := by
        rw [← decimalOrdinal_mul_ten hexponent,
          Nat.div_mul_cancel (Nat.dvd_of_mod_eq_zero hzeros.2)]
      rw [← hsame] at h ⊢
      exact ih h

/-- A decimal found on the grid of a length is rounded to the number it was found for. -/
theorem decimalOrdinal_of_onGrid? {found : Nat × Int} (h : onGrid? ordinal exponent = some found) :
    decimalOrdinal found.1 found.2 = ordinal := by
  unfold onGrid? at h
  generalize inUnitsOf exponent (scaled ordinal) = units at h
  obtain ⟨num, den⟩ := units
  have heven : divHalfEven num den = num / den ∨ divHalfEven num den = num / den + 1 := by
    simp only [divHalfEven]
    split
    · exact Or.inl rfl
    · split
      · exact Or.inr rfl
      · split
        · exact Or.inl rfl
        · exact Or.inr rfl
  dsimp only at h
  split at h
  · next hbelow habove =>
      cases h
      rcases heven with heven | heven
      · rw [heven]
        exact beq_iff_eq.mp hbelow
      · rw [heven]
        exact beq_iff_eq.mp habove
  · next hbelow _ =>
      cases h
      exact beq_iff_eq.mp hbelow
  · next _ habove =>
      cases h
      exact beq_iff_eq.mp habove
  · cases h

theorem decimalOrdinal_expansion :
    decimalOrdinal (scaled ordinal * 5 ^ halvings) (-halvings) = ordinal := by
  have hnone : (-(halvings : Int)).toNat = 0 := by omega
  have hplaces : (- -(halvings : Int)).toNat = halvings := by omega
  have hten : 5 ^ halvings * 2 ^ halvings = 10 ^ halvings := (Nat.mul_pow 5 2 halvings).symm
  rw [decimalOrdinal_eq (by omega), hnone, hplaces, Nat.pow_zero, Nat.mul_one, Nat.mul_assoc, hten,
    nearestOrdinal_scaled (Nat.pow_pos (by decide))]

/-- Should no grid have a decimal, the exact expansion is one. -/
theorem decimalOrdinal_onFirstGrid :
    decimalOrdinal (onFirstGrid ordinal).1 (onFirstGrid ordinal).2 = ordinal := by
  obtain ⟨found, hfound⟩ : ∃ found, found = (List.range 17).findSome? fun (places : Nat) =>
      onGrid? ordinal (leadingExponent ordinal - places) := ⟨_, rfl⟩
  have heq : onFirstGrid ordinal = found.getD (scaled ordinal * 5 ^ halvings, -halvings) := by
    rw [hfound]
    rfl
  rw [heq]
  cases found with
  | some found =>
      obtain ⟨places, -, hgrid⟩ := List.exists_of_findSome?_eq_some hfound.symm
      exact decimalOrdinal_of_onGrid? hgrid
  | none => exact decimalOrdinal_expansion

/-- The shortest decimal of a number reads back as the number. -/
theorem decimalOrdinal_shortest (h : ordinal < ordinalLimit) :
    decimalOrdinal (shortest ordinal).1 (shortest ordinal).2 = ordinal := by
  have hgrid : decimalOrdinal (onFirstGrid ordinal).1 (onFirstGrid ordinal).2 = ordinal :=
    decimalOrdinal_onFirstGrid
  have hbounded : decimalOrdinal (onFirstGrid ordinal).1 (onFirstGrid ordinal).2 <
    ordinalLimit := by
    rw [hgrid]
    exact h
  exact (decimalOrdinal_withoutTrailingZeros hbounded).trans hgrid

end SchemaHistory.Binary64
