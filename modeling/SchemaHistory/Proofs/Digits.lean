import SchemaHistory.Text.Digit
import Mathlib.Algebra.Group.Nat.Defs

/-!
# Digits and the numbers they stand for

The digits of a number stand for it again (`Text.numberOfDigits_digitsOfNumber`). Digits of one
length are in the order of the numbers they stand for (`Text.lt_of_numberOfDigits_lt`), which is
what makes the order of names an order of numbers: names are compared as texts, and their numbers
have four digits each.
-/

namespace SchemaHistory

namespace Text

variable {c d : Char} {xs ys : List Char} {n : Nat}

/-- The first digit counts most. -/
theorem numberOfDigits_cons :
    numberOfDigits (c :: xs) = 10 ^ xs.length * digitValue c + numberOfDigits xs := by
  have hfold : Nat.ofDigitChars 10 xs (digitValue c)
      = 10 ^ xs.length * digitValue c + Nat.ofDigitChars 10 xs 0 :=
    Nat.ofDigitChars_eq_ofDigitChars_zero
  rw [Nat.ofDigitChars_eq_foldl, Nat.ofDigitChars_eq_foldl] at hfold
  show xs.foldl _ (10 * 0 + digitValue c) = _
  rw [Nat.mul_zero, Nat.zero_add]
  exact hfold

/-- A number is read back from its digits. -/
theorem numberOfDigits_digitsOfNumber : numberOfDigits (digitsOfNumber n) = n := by
  have hvalue := Nat.ofDigitChars_ten_toDigits (n := n)
  rw [Nat.ofDigitChars_eq_foldl] at hvalue
  exact hvalue

theorem isDigit_of_mem_digitsOfNumber (h : c ∈ digitsOfNumber n) : c.isDigit = true :=
  Nat.isDigit_of_mem_toDigits (by decide) (by decide) h

/-- Zeros in front do not count. -/
theorem numberOfDigits_replicate_append (k : Nat) :
    numberOfDigits (List.replicate k '0' ++ xs) = numberOfDigits xs := by
  induction k with
  | zero => rfl
  | succ k ih =>
      have hzero : digitValue '0' = 0 := rfl
      rw [List.replicate_succ, List.cons_append, numberOfDigits_cons, hzero, Nat.mul_zero,
        Nat.zero_add, ih]

theorem takeWhile_isDigit_append (hxs : ∀ c ∈ xs, c.isDigit = true)
    (hys : ∀ c ∈ ys.head?, c.isDigit = false) : (xs ++ ys).takeWhile Char.isDigit = xs := by
  rw [List.takeWhile_append_of_pos hxs]
  cases ys with
  | nil => exact List.append_nil xs
  | cons c ys =>
      rw [List.takeWhile_cons_of_neg (by simp [hys c rfl]), List.append_nil]

theorem dropWhile_isDigit_append (hxs : ∀ c ∈ xs, c.isDigit = true)
    (hys : ∀ c ∈ ys.head?, c.isDigit = false) : (xs ++ ys).dropWhile Char.isDigit = ys := by
  rw [List.dropWhile_append_of_pos hxs]
  cases ys with
  | nil => rfl
  | cons c ys => rw [List.dropWhile_cons_of_neg (by simp [hys c rfl])]

theorem isDigit_iff : c.isDigit = true ↔ 48 ≤ c.toNat ∧ c.toNat ≤ 57 := by
  simp [Char.isDigit, UInt32.le_iff_toNat_le]

theorem digitValue_lt (h : c.isDigit = true) : digitValue c < 10 := by
  have hdigit := isDigit_iff.mp h
  show c.toNat - 48 < 10
  omega

/-- Digits are told apart by their values. -/
theorem eq_of_digitValue_eq (hc : c.isDigit = true) (hd : d.isDigit = true)
    (h : digitValue c = digitValue d) : c = d := by
  have hcdigit := isDigit_iff.mp hc
  have hddigit := isDigit_iff.mp hd
  have hvalue : c.toNat - 48 = d.toNat - 48 := h
  exact Char.toNat_inj.mp (by omega)

theorem lt_of_digitValue_lt (h : digitValue c < digitValue d) : c < d := by
  have hvalue : c.toNat - 48 < d.toNat - 48 := h
  have hlt : c.toNat < d.toNat := by omega
  exact hlt

/-- A number has no more digits than its bound allows. -/
theorem numberOfDigits_lt (h : ∀ c ∈ xs, c.isDigit = true) :
    numberOfDigits xs < 10 ^ xs.length := by
  induction xs with
  | nil => decide
  | cons c rest ih =>
      obtain ⟨hc, hrest⟩ := List.forall_mem_cons.mp h
      have hdigit := digitValue_lt hc
      have hless := ih hrest
      rw [numberOfDigits_cons, List.length_cons, Nat.pow_succ]
      calc 10 ^ rest.length * digitValue c + numberOfDigits rest
          < 10 ^ rest.length * digitValue c + 10 ^ rest.length := by omega
        _ = 10 ^ rest.length * (digitValue c + 1) := by rw [Nat.mul_add, Nat.mul_one]
        _ ≤ 10 ^ rest.length * 10 := Nat.mul_le_mul_left _ hdigit

/-- Digits of one length are in the order of the numbers they stand for. -/
theorem lt_of_numberOfDigits_lt (hlength : xs.length = ys.length)
    (hxs : ∀ c ∈ xs, c.isDigit = true) (hys : ∀ c ∈ ys, c.isDigit = true)
    (h : numberOfDigits xs < numberOfDigits ys) : xs < ys := by
  induction xs generalizing ys with
  | nil =>
      obtain rfl := List.length_eq_zero_iff.mp hlength.symm
      exact absurd h (Nat.lt_irrefl _)
  | cons c rest ih =>
      cases ys with
      | nil => cases hlength
      | cons d others =>
          obtain ⟨hc, hrest⟩ := List.forall_mem_cons.mp hxs
          obtain ⟨hd, hothers⟩ := List.forall_mem_cons.mp hys
          replace hlength := Nat.succ.inj hlength
          rw [numberOfDigits_cons, numberOfDigits_cons, hlength] at h
          rcases Nat.lt_trichotomy (digitValue c) (digitValue d) with hlt | heq | hgt
          · exact List.cons_lt_cons_iff.mpr (.inl (lt_of_digitValue_lt hlt))
          · obtain rfl := eq_of_digitValue_eq hc hd heq
            exact List.cons_lt_cons_iff.mpr (.inr ⟨rfl, ih hlength hrest hothers (by omega)⟩)
          · -- the first digit counts for more than all the others together
            have hless := numberOfDigits_lt hothers
            have hmore := Nat.mul_le_mul_left (10 ^ others.length) (Nat.succ_le_of_lt hgt)
            rw [Nat.mul_succ] at hmore
            omega

end Text

end SchemaHistory
