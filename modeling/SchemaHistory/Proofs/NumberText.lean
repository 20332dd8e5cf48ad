import SchemaHistory.Json.Scalar
import SchemaHistory.Proofs.Digits
import SchemaHistory.Proofs.Rounding
import Mathlib.Data.List.TakeDrop

/-!
# The texts of numbers

Whatever the layout, a magnitude is written as a *numeral*: digits, a point with more of them or
none, and an exponent or none (`Binary64.exists_numeral`). The numeral stands for the number that is
written, and readers of numbers find its parts.

Three readers meet such texts: that of documents, that of statements, and that of defaults in
declarations. All that they have to know is the shape of a numeral and its `ordinal`, so none of
them looks into the layouts, of which there are three cases: a positional form with a point or
without, and the scientific one.
-/

namespace SchemaHistory

namespace Text

variable {xs ys : List Char} {n : Nat}

/-- Digits in front count by their place. -/
theorem numberOfDigits_append :
    numberOfDigits (xs ++ ys) = numberOfDigits xs * 10 ^ ys.length + numberOfDigits ys := by
  induction xs with
  | nil => simp [numberOfDigits]
  | cons c xs ih =>
      rw [List.cons_append, numberOfDigits_cons, numberOfDigits_cons, ih, List.length_append,
        Nat.pow_add, Nat.add_mul, Nat.mul_right_comm (10 ^ xs.length), Nat.add_assoc]

theorem numberOfDigits_zeros (k : Nat) : numberOfDigits (List.replicate k '0') = 0 := by
  have hvalue : numberOfDigits (List.replicate k '0' ++ []) = numberOfDigits [] :=
    numberOfDigits_replicate_append k
  rw [List.append_nil] at hvalue
  exact hvalue

theorem isDigit_of_mem_zeros {k : Nat} {c : Char} (h : c ∈ List.replicate k '0') :
    c.isDigit = true := by
  rw [List.eq_of_mem_replicate h]
  rfl

/-- The digits of a number that is not zero begin with another digit. -/
theorem exists_digitsOfNumber (h : n ≠ 0) :
    ∃ first rest, digitsOfNumber n = first :: rest ∧ first ≠ '0' := by
  induction n using Nat.strong_induction_on with
  | _ n ih =>
      unfold digitsOfNumber at ih ⊢
      by_cases hsmall : n < 10
      · rw [Nat.toDigits_of_lt_base hsmall]
        exact ⟨_, [], rfl, fun hzero => h (Nat.digitChar_eq_zero.mp hzero)⟩
      · obtain ⟨first, rest, hdigits, hfirst⟩ := ih (n / 10) (by omega) (by omega)
        rw [Nat.toDigits_of_base_le (by decide) (by omega), hdigits]
        exact ⟨first, _, rfl, hfirst⟩

end Text

/-- The parts of a number in decimal notation. -/
structure Numeral where
  whole : List Char
  fraction : List Char := []
  exponent : Option Int := none

namespace Numeral

def fractionText : List Char → List Char
  | [] => []
  | digits => '.' :: digits

def exponentText : Option Int → List Char
  | none => []
  | some exponent =>
    'e' :: (if exponent < 0 then '-' else '+') :: Text.digitsOfNumber exponent.natAbs

def text (numeral : Numeral) : List Char :=
  numeral.whole ++ (fractionText numeral.fraction ++ exponentText numeral.exponent)

def ordinal (numeral : Numeral) : Nat :=
  Binary64.decimalOrdinal (Text.numberOfDigits (numeral.whole ++ numeral.fraction))
    (numeral.exponent.getD 0 - numeral.fraction.length)

/-- Digits stand where digits must stand, and none of them is missing or too much. -/
structure WellFormed (numeral : Numeral) : Prop where
  whole : Json.wholeDigits numeral.whole = true
  digits : ∀ c ∈ numeral.whole ++ numeral.fraction, c.isDigit = true

def IsMarked (numeral : Numeral) : Prop := numeral.fraction ≠ [] ∨ numeral.exponent ≠ none

variable {numeral : Numeral} {digits rest : List Char}

/-! ### Reading -/

/-- Digits are read up to the first character that is none. -/
theorem spanDigits_append (hdigits : ∀ c ∈ digits, c.isDigit = true)
    (hrest : ∀ c ∈ rest.head?, c.isDigit = false) :
    Binary64.spanDigits (digits ++ rest) = (digits, rest) := by
  rw [Binary64.spanDigits, List.span_eq_takeWhile_dropWhile,
    Text.takeWhile_isDigit_append hdigits hrest, Text.dropWhile_isDigit_append hdigits hrest]

theorem head?_exponentText (exponent : Option Int) :
    ∀ c ∈ (exponentText exponent).head?, c.isDigit = false := by
  cases exponent with
  | none => nofun
  | some exponent =>
      intro c hc
      cases hc
      rfl

theorem head?_fractionText (fraction : List Char) (exponent : Option Int) :
    ∀ c ∈ (fractionText fraction ++ exponentText exponent).head?, c.isDigit = false := by
  cases fraction with
  | nil => exact head?_exponentText exponent
  | cons digit digits =>
      intro c hc
      cases hc
      rfl

/-- An exponent is read as it was written. -/
theorem readExponent?_exponentText (exponent : Option Int) :
    Binary64.readExponent? (exponentText exponent) = some (exponent.getD 0) := by
  cases exponent with
  | none => rfl
  | some exponent =>
      have hall : (Text.digitsOfNumber exponent.natAbs).all Char.isDigit = true :=
        List.all_eq_true.mpr fun c hc => Text.isDigit_of_mem_digitsOfNumber hc
      have hsome : (Text.digitsOfNumber exponent.natAbs).isEmpty = false :=
        List.isEmpty_eq_false_iff.mpr Nat.toDigits_ne_nil
      simp only [exponentText]
      by_cases hnegative : exponent < 0
      · have hvalue : -(exponent.natAbs : Int) = exponent := by omega
        generalize exponent.natAbs = digits at *
        simp [Binary64.readExponent?, hnegative, hall, hsome, Text.numberOfDigits_digitsOfNumber,
          hvalue]
      · have hvalue : (exponent.natAbs : Int) = exponent := by omega
        generalize exponent.natAbs = digits at *
        simp [Binary64.readExponent?, hnegative, hall, hsome, Text.numberOfDigits_digitsOfNumber,
          hvalue]

namespace WellFormed

variable (h : numeral.WellFormed) (negative : Bool)

include h

theorem whole_isDigit : ∀ c ∈ numeral.whole, c.isDigit = true :=
  fun c hc => h.digits c (List.mem_append_left _ hc)

theorem fraction_isDigit : ∀ c ∈ numeral.fraction, c.isDigit = true :=
  fun c hc => h.digits c (List.mem_append_right _ hc)

theorem whole_isEmpty : numeral.whole.isEmpty = false := by
  have hwhole := h.whole
  cases heq : numeral.whole with
  | nil =>
      rw [heq] at hwhole
      cases hwhole
  | cons c cs => rfl

/-- The text of a number is cut at the end of its whole part. -/
theorem spanDigits_text : Binary64.spanDigits numeral.text
    = (numeral.whole, fractionText numeral.fraction ++ exponentText numeral.exponent) :=
  spanDigits_append h.whole_isDigit (head?_fractionText _ _)

theorem spanDigits_fraction {rest : List Char} (hrest : ∀ c ∈ rest.head?, c.isDigit = false) :
    Binary64.spanDigits (numeral.fraction ++ rest) = (numeral.fraction, rest) :=
  spanDigits_append h.fraction_isDigit hrest

theorem head?_text : ∀ c ∈ numeral.text.head?, c.isDigit = true := by
  have hwhole := h.whole_isDigit
  have hsome := h.whole_isEmpty
  unfold text
  cases heq : numeral.whole with
  | nil =>
      rw [heq] at hsome
      cases hsome
  | cons c cs =>
      intro d hd
      cases hd
      exact hwhole c (heq ▸ List.mem_cons_self)

/-- No other characters stand in a numeral. -/
theorem mem_text {c : Char} (hc : c ∈ numeral.text) :
    c.isDigit = true ∨ c ∈ ['.', 'e', '+', '-'] := by
  have hfraction : c ∈ fractionText numeral.fraction → c = '.' ∨ c ∈ numeral.fraction := by
    cases numeral.fraction <;> simp [fractionText]
  rcases List.mem_append.mp hc with hc | hc
  · exact Or.inl (h.whole_isDigit c hc)
  rcases List.mem_append.mp hc with hc | hc
  · rcases hfraction hc with rfl | hc
    · exact Or.inr (by simp)
    · exact Or.inl (h.fraction_isDigit c hc)
  · cases hcase : numeral.exponent with
    | none =>
        rw [hcase] at hc
        cases hc
    | some exponent =>
        rw [hcase] at hc
        rcases List.mem_cons.mp hc with rfl | hc
        · exact Or.inr (by simp)
        rcases List.mem_cons.mp hc with hsign | hc
        · refine Or.inr ?_
          rw [hsign]
          split <;> simp
        · exact Or.inl (Text.isDigit_of_mem_digitsOfNumber hc)

/-- A numeral with a point or an exponent is read as a float. -/
theorem readNumber?_text (hmarked : numeral.IsMarked) :
    Json.Scalar.readNumber? negative numeral.text
      = some (.float (.ofOrdinal negative numeral.ordinal)) := by
  have hspan := h.spanDigits_fraction (head?_exponentText numeral.exponent)
  have hexponent := readExponent?_exponentText numeral.exponent
  unfold Json.Scalar.readNumber?
  rw [h.spanDigits_text]
  cases hfraction : numeral.fraction with
  | nil =>
      cases hcase : numeral.exponent with
      | none => exact absurd hmarked (by simp [IsMarked, hfraction, hcase])
      | some exponent =>
          rw [hcase] at hexponent
          simp only [exponentText] at hexponent
          simp [fractionText, exponentText, h.whole, hexponent, ordinal, hfraction, hcase,
            Binary64.ofDecimal]
  | cons c cs =>
      rw [hfraction] at hspan
      simp only [fractionText, List.cons_append] at hspan ⊢
      simp [hspan, h.whole, hexponent, ordinal, hfraction, Binary64.ofDecimal]

end WellFormed

/-! ### Writing -/

section Writing

variable {layout : Layout} {marksWhole : Bool} {number : Nat} {exponent : Int}

/-- A whole number does not begin with a zero unless it is zero. -/
theorem wholeDigits_cons {first : Char} (h : first ≠ '0') (rest : List Char) :
    Json.wholeDigits (first :: rest) = true := by
  rw [Json.wholeDigits]
  · simpa using h
  · rintro hsame -
    exact h hsame

/-- Digits that begin with another digit than zero may be followed by any. -/
theorem wholeDigits_append (h : number ≠ 0) (more : List Char) :
    Json.wholeDigits (Text.digitsOfNumber number ++ more) = true := by
  obtain ⟨first, rest, hdigits, hfirst⟩ := Text.exists_digitsOfNumber h
  rw [hdigits]
  exact wholeDigits_cons hfirst _

theorem wholeDigits_zeros (h : number ≠ 0 ∨ exponent = 0) : Json.wholeDigits
    (Text.digitsOfNumber number ++ List.replicate exponent.toNat '0') = true := by
  rcases h with hnumber | rfl
  · exact wholeDigits_append hnumber _
  · by_cases hnumber : number = 0
    · rw [hnumber]
      rfl
    · exact wholeDigits_append hnumber _

theorem digitsOfNumber_isDigit : ∀ c ∈ Text.digitsOfNumber number, c.isDigit = true :=
  fun _ hc => Text.isDigit_of_mem_digitsOfNumber hc

/-- A whole number, with zeros for the exponent and perhaps one behind the point. -/
theorem exists_positional_of_nonneg (hnumber : number ≠ 0 ∨ exponent = 0) (hnonneg : 0 ≤ exponent)
    (hexponent : exponent < 400) : ∃ numeral : Numeral, numeral.WellFormed ∧
      Binary64.positionalText marksWhole (Text.digitsOfNumber number) exponent = numeral.text ∧
      numeral.ordinal = Binary64.decimalOrdinal number exponent ∧ numeral.exponent = none ∧
      (marksWhole = true → numeral.IsMarked) := by
  obtain ⟨places, hmarked, htext⟩ : ∃ places, (marksWhole = true → places ≠ 0) ∧
      (if marksWhole then ['.', '0'] else []) = fractionText (List.replicate places '0') := by
    cases marksWhole
    · exact ⟨0, nofun, rfl⟩
    · exact ⟨1, fun _ => Nat.one_ne_zero, rfl⟩
  refine ⟨⟨Text.digitsOfNumber number ++ List.replicate exponent.toNat '0',
    List.replicate places '0', none⟩, ⟨wholeDigits_zeros hnumber, ?_⟩, ?_, ?_, rfl, ?_⟩
  · intro c hc
    rw [List.append_assoc] at hc
    rcases List.mem_append.mp hc with hc | hc
    · exact digitsOfNumber_isDigit c hc
    · rcases List.mem_append.mp hc with hc | hc
      · exact Text.isDigit_of_mem_zeros hc
      · exact Text.isDigit_of_mem_zeros hc
  · rw [Binary64.positionalText, if_pos hnonneg, htext]
    simp [text, exponentText]
  · have hzeros : List.replicate exponent.toNat '0' ++ List.replicate places '0'
        = List.replicate (exponent.toNat + places) '0' := List.replicate_append_replicate
    have hvalue : (0 - (places : Int)) + ((exponent.toNat + places : Nat) : Int) = exponent := by
      omega
    simp only [ordinal, List.append_assoc, hzeros, Text.numberOfDigits_append,
      Text.numberOfDigits_zeros, Text.numberOfDigits_digitsOfNumber, List.length_replicate,
      Nat.add_zero, Option.getD_none]
    rw [Binary64.decimalOrdinal_mul_pow (by omega), hvalue]
  · intro hmarks
    refine Or.inl fun hnone => hmarked hmarks ?_
    simpa using hnone

/-- The point stands among the digits, or before zeros that stand before them. -/
theorem exists_positional_of_neg (hnumber : number ≠ 0) (hnegative : exponent < 0) :
    ∃ numeral : Numeral, numeral.WellFormed ∧
      Binary64.positionalText marksWhole (Text.digitsOfNumber number) exponent = numeral.text ∧
      numeral.ordinal = Binary64.decimalOrdinal number exponent ∧ numeral.exponent = none ∧
      numeral.IsMarked := by
  have hplaces : (0 - ((-exponent).toNat : Int)) = exponent := by omega
  rw [Binary64.positionalText, if_neg (by omega)]
  dsimp only
  split
  · next hinside =>
      generalize hbefore : (Text.digitsOfNumber number).length - (-exponent).toNat = before
      have hfraction : (Text.digitsOfNumber number).drop before ≠ [] := by
        rw [Ne, List.drop_eq_nil_iff]
        omega
      refine ⟨⟨(Text.digitsOfNumber number).take before, (Text.digitsOfNumber number).drop before,
        none⟩, ⟨?_, ?_⟩, ?_, ?_, rfl, Or.inl hfraction⟩
      · obtain ⟨first, rest, hdigits, hfirst⟩ := Text.exists_digitsOfNumber hnumber
        obtain ⟨others, rfl⟩ : ∃ others, before = others + 1 := ⟨before - 1, by omega⟩
        rw [hdigits]
        exact wholeDigits_cons hfirst _
      · rw [List.take_append_drop]
        exact digitsOfNumber_isDigit
      · cases hcase : (Text.digitsOfNumber number).drop before with
        | nil => exact absurd hcase hfraction
        | cons c cs => simp [text, fractionText, exponentText]
      · have hlength : (Text.digitsOfNumber number).length - before = (-exponent).toNat := by omega
        simp only [ordinal, List.take_append_drop, Text.numberOfDigits_digitsOfNumber,
          List.length_drop, hlength, Option.getD_none, hplaces]
  · next houtside =>
      have hlength : (Text.zeroPadded (-exponent).toNat (Text.digitsOfNumber number)).length
          = (-exponent).toNat := by
        rw [Text.zeroPadded, List.length_append, List.length_replicate]
        omega
      have hfraction : Text.zeroPadded (-exponent).toNat (Text.digitsOfNumber number) ≠ [] :=
        List.ne_nil_of_length_pos (by omega)
      refine ⟨⟨['0'], Text.zeroPadded (-exponent).toNat (Text.digitsOfNumber number), none⟩,
        ⟨rfl, ?_⟩, ?_, ?_, rfl, Or.inl hfraction⟩
      · intro c hc
        rcases List.mem_append.mp hc with hc | hc
        · rw [List.mem_singleton.mp hc]
          rfl
        · rcases List.mem_append.mp hc with hc | hc
          · exact Text.isDigit_of_mem_zeros hc
          · exact digitsOfNumber_isDigit c hc
      · cases hcase : Text.zeroPadded (-exponent).toNat (Text.digitsOfNumber number) with
        | nil => exact absurd hcase hfraction
        | cons c cs => simp [text, fractionText, exponentText]
      · have hvalue : Text.numberOfDigits (['0'] ++
            Text.zeroPadded (-exponent).toNat (Text.digitsOfNumber number)) = number := by
          have hzero : (['0'] : List Char) = List.replicate 1 '0' := rfl
          rw [hzero, Text.numberOfDigits_replicate_append, Text.zeroPadded,
            Text.numberOfDigits_replicate_append, Text.numberOfDigits_digitsOfNumber]
        simp only [ordinal, hvalue, hlength, Option.getD_none, hplaces]

/-- The first digit stands before the point and the others behind it. -/
theorem exists_scientific (exponent : Int) : ∃ numeral : Numeral, numeral.WellFormed ∧
      Binary64.scientificText (Text.digitsOfNumber number)
        (exponent + (Text.digitsOfNumber number).length - 1) = numeral.text ∧
      numeral.ordinal = Binary64.decimalOrdinal number exponent ∧ numeral.IsMarked := by
  obtain ⟨first, rest, hdigits⟩ : ∃ first rest, Text.digitsOfNumber number = first :: rest :=
    List.exists_cons_of_ne_nil Nat.toDigits_ne_nil
  refine ⟨⟨[first], rest, some (exponent + (first :: rest).length - 1)⟩, ⟨?_, ?_⟩, ?_, ?_,
    Or.inr nofun⟩
  · by_cases hnumber : number = 0
    · rw [hnumber] at hdigits
      cases hdigits
      rfl
    · obtain ⟨first', rest', hdigits', hfirst⟩ := Text.exists_digitsOfNumber hnumber
      cases hdigits.symm.trans hdigits'
      exact wholeDigits_cons hfirst _
  · rw [List.singleton_append, ← hdigits]
    exact digitsOfNumber_isDigit
  · rw [hdigits]
    cases rest with
    | nil => simp [Binary64.scientificText, text, fractionText, exponentText]
    | cons second rest => simp [Binary64.scientificText, text, fractionText, exponentText]
  · have hvalue : exponent + ((first :: rest).length : Int) - 1 - rest.length = exponent := by
      simp only [List.length_cons]
      omega
    simp only [ordinal, List.singleton_append, ← hdigits, Text.numberOfDigits_digitsOfNumber,
      Option.getD_some]
    rw [hdigits, hvalue]

end Writing

end Numeral

namespace Binary64

variable {layout : Layout} {ordinal : Nat}

/-- Whatever the layout, the text of a magnitude is a numeral that stands for it. -/
theorem exists_numeral (layout : Layout) (h : ordinal < ordinalLimit) :
    ∃ numeral : Numeral, numeral.WellFormed ∧ magnitudeText layout ordinal = numeral.text ∧
      numeral.ordinal = ordinal ∧
      ((∀ lead, layout.positional lead = true) → numeral.exponent = none) ∧
      (layout.marksWhole = true → numeral.IsMarked) := by
  obtain ⟨found, hfound⟩ : ∃ found, found = if ordinal = 0 then (0, 0) else shortest ordinal :=
    ⟨_, rfl⟩
  have hvalue : decimalOrdinal found.1 found.2 = ordinal := by
    rw [hfound]
    split
    · next hzero => exact hzero.symm
    · exact decimalOrdinal_shortest h
  have hnumber : found.1 ≠ 0 ∨ found.2 = 0 := by
    by_cases hzero : ordinal = 0
    · rw [if_pos hzero] at hfound
      exact Or.inr (congrArg Prod.snd hfound)
    · refine Or.inl fun hnone => hzero ?_
      rw [← hvalue, hnone]
      rfl
  have hexponent : found.2 < 400 := by
    by_contra hlarge
    have hpositive : found.1 ≠ 0 := hnumber.resolve_right (by omega)
    have hlimit := ordinalLimit_le_decimalOrdinal (Nat.pos_of_ne_zero hpositive) (not_lt.mp hlarge)
    rw [hvalue] at hlimit
    exact absurd h (not_lt.mpr hlimit)
  obtain ⟨number, exponent⟩ := found
  unfold magnitudeText
  rw [← hfound]
  dsimp only at hvalue hnumber hexponent ⊢
  rw [← hvalue]
  split
  · by_cases hsign : 0 ≤ exponent
    · obtain ⟨numeral, hwell, htext, hordinal, hexponent, hmarked⟩ :=
        Numeral.exists_positional_of_nonneg hnumber hsign hexponent
      exact ⟨numeral, hwell, htext, hordinal, fun _ => hexponent, hmarked⟩
    · obtain ⟨numeral, hwell, htext, hordinal, hexponent, hmarked⟩ :=
        Numeral.exists_positional_of_neg (hnumber.resolve_right (by omega)) (not_le.mp hsign)
      exact ⟨numeral, hwell, htext, hordinal, fun _ => hexponent, fun _ => hmarked⟩
  · next hlead =>
      obtain ⟨numeral, hwell, htext, hordinal, hmarked⟩ := Numeral.exists_scientific exponent
      exact ⟨numeral, hwell, htext, hordinal, fun hall => absurd (hall _) hlead,
        fun _ => hmarked⟩

end Binary64

end SchemaHistory
