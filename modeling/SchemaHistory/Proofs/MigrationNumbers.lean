import SchemaHistory.MigrationStore
import SchemaHistory.Proofs.Digits
import SchemaHistory.Proofs.ReadMigrations

/-!
# The number of the next migration

The number of the next migration is one more than that of the last one, filled up with zeros to four
digits. Digits of one length are in the order of the numbers they stand for, so the next migration
comes behind all others and repeats no number (`MigrationStore.comes_last`). This holds only where
the last number is in the digits 0 to 9: digits of other scripts stand for nothing.
-/

namespace SchemaHistory

namespace Migration

variable {migration : Migration} {digits label : List Char}

/-- A name is made of a number of four digits, an underscore and word characters. -/
theorem Numbered.name_eq (h : migration.Numbered) :
    ∃ a b c d, ∃ label : List Char,
      migration.name.toList = [a, b, c, d] ++ '_' :: label ∧
      migration.number.toList = [a, b, c, d] ∧
      (∀ digit ∈ [a, b, c, d], Text.isDigitOfAnyScript digit = true) ∧
      ∀ x ∈ label, Text.isWordChar x = true := by
  obtain ⟨⟨number, label⟩, hsplit⟩ := Option.isSome_iff_exists.mp h
  have hnumber := number_eq h
  unfold MigrationName.split? at hsplit
  split at hsplit
  · next a b c d label hname =>
      split at hsplit
      · next hparts =>
          simp only [Bool.and_eq_true, List.all_eq_true] at hparts
          refine ⟨a, b, c, d, label, hname, ?_, hparts.1.1, hparts.2⟩
          rw [hnumber, hname, String.toList_ofList]
          rfl
      · cases hsplit
  · cases hsplit

/-- Where digits and an underscore begin a name, the digits are the number. -/
theorem Numbered.number_eq_of_digits (h : migration.Numbered)
    (hname : migration.name.toList = digits ++ '_' :: label) (hlength : 4 ≤ digits.length)
    (hdigits : ∀ c ∈ digits, c.isDigit = true) : migration.number.toList = digits := by
  obtain ⟨a, b, c, d, word, hparts, hnumber, -, -⟩ := h.name_eq
  rw [hnumber]
  have hboth : digits ++ '_' :: label = [a, b, c, d] ++ '_' :: word := hname.symm.trans hparts
  obtain ⟨more, rfl⟩ : ∃ more, digits = [a, b, c, d] ++ more := by
    have htake := congrArg (List.take 4) hboth
    rw [List.take_append_of_le_length hlength] at htake
    exact ⟨digits.drop 4, by rw [← List.take_append_drop 4 digits, htake]; simp⟩
  cases more with
  | nil => simp
  | cons underscore rest =>
      have hunderscore : underscore = '_' := by simpa using (List.cons.inj
        (List.append_cancel_left (List.append_assoc _ _ _ ▸ hboth))).1
      have hdigit := hdigits underscore (by simp)
      rw [hunderscore] at hdigit
      exact absurd hdigit (by decide)

end Migration

namespace Migration

variable {a b : Migration}

/-- The number of a numbered migration is four characters long. -/
theorem Numbered.length_number (h : a.Numbered) : a.number.toList.length = 4 := by
  obtain ⟨_, _, _, _, _, -, hnumber, -, -⟩ := h.name_eq
  rw [hnumber]
  rfl

/-- Digits that are all ASCII count as the number that they spell. -/
theorem rank_eq (h : ∀ c ∈ a.number.toList, c.isDigit = true) :
    a.rank = Text.numberOfDigits a.number.toList := by
  rw [rank, MigrationName.rank, if_pos (List.all_eq_true.mpr h)]

/-- A higher number comes behind a lower one. -/
theorem Numbered.name_lt (ha : a.Numbered) (hb : b.Numbered) (h : a.number < b.number) :
    a.name < b.name := by
  rcases lt_trichotomy a.name b.name with hlt | heq | hgt
  · exact hlt
  · rw [number_eq ha, number_eq hb, heq] at h
    exact absurd h (lt_irrefl _)
  · exact absurd h (number_le hb ha hgt)

end Migration

namespace MigrationStore

/-! ### The number that is given next -/

variable {existing : List Migration} {migration : Migration} {label : String}

/-- A number is written in its digits and zeros before them, four or more of them. -/
theorem numberText_eq (n : Nat) : 4 ≤ (MigrationName.numberText n).toList.length ∧
    (∀ c ∈ (MigrationName.numberText n).toList, c.isDigit = true) ∧
      Text.numberOfDigits (MigrationName.numberText n).toList = n := by
  rw [MigrationName.numberText, String.toList_ofList, Text.zeroPadded]
  refine ⟨?_, ?_, ?_⟩
  · rw [List.length_append, List.length_replicate]
    omega
  · intro c hc
    rcases List.mem_append.mp hc with hzero | hdigit
    · rw [List.eq_of_mem_replicate hzero]
      decide
    · exact Text.isDigit_of_mem_digitsOfNumber hdigit
  · rw [Text.numberOfDigits_replicate_append, Text.numberOfDigits_digitsOfNumber]

theorem toList_name (number label : String) :
    s!"{number}_{label}".toList = number.toList ++ '_' :: label.toList := by
  show (_ ++ "_" ++ label).toList = _
  rw [String.toList_append, String.toList_append, List.append_assoc]
  rfl

/-- The number of a name that is made of a number and a label. -/
theorem number_eq_numberText {n : Nat} (hm : migration.Numbered)
    (hname : migration.name = s!"{MigrationName.numberText n}_{label}") :
    migration.number.toList = (MigrationName.numberText n).toList := by
  obtain ⟨hlength, hall, -⟩ := numberText_eq n
  have hparts : migration.name.toList
      = (MigrationName.numberText n).toList ++ '_' :: label.toList := by
    rw [hname, toList_name]
  exact hm.number_eq_of_digits hparts hlength hall

/-- The next number is one more than that of the last migration. -/
theorem numberAfter_concat {last : Migration} :
    numberAfter (existing ++ [last]) = MigrationName.numberText (last.rank + 1) := by
  rw [numberAfter, List.getLast?_concat]
  rfl

/-- The number of the next migration is above the last one, if that is in the digits 0 to 9. -/
theorem last_number_lt {last : Migration} (hlast : last.Numbered)
    (hdigits : ∀ c ∈ last.number.toList, c.isDigit = true) (hm : migration.Numbered)
    (hname : migration.name = s!"{numberAfter (existing ++ [last])}_{label}") :
    last.number < migration.number := by
  obtain ⟨-, hall, hvalue⟩ := numberText_eq (last.rank + 1)
  have hown := number_eq_numberText hm (numberAfter_concat ▸ hname)
  rw [String.lt_iff_toList_lt]
  refine Text.lt_of_numberOfDigits_lt (hlast.length_number.trans hm.length_number.symm)
    hdigits ?_ ?_
  · rw [hown]
    exact hall
  · rw [hown, hvalue, Migration.rank_eq hdigits]
    exact Nat.lt_succ_self _

/-- The last number is the highest one. -/
theorem number_le_last {before : List Migration} {last : Migration}
    (hnumbered : ∀ earlier ∈ before ++ [last], earlier.Numbered)
    (hascending : (before ++ [last]).Pairwise (·.name < ·.name)) :
    ∀ earlier ∈ before ++ [last], earlier.number ≤ last.number := by
  intro earlier hearlier
  rcases List.mem_append.mp hearlier with hbefore | hlatest
  · have hlt := (List.pairwise_append.mp hascending).2.2 earlier hbefore last (by simp)
    exact Migration.number_le_of_name_le (hnumbered _ hearlier) (hnumbered _ (by simp)) hlt.le
  · rw [List.mem_singleton.mp hlatest]

/-- The next migration comes behind all others, and has a number above all of theirs. -/
theorem comes_last (hnumbered : ∀ earlier ∈ existing, earlier.Numbered)
    (hascending : existing.Pairwise (·.name < ·.name))
    (hdigits : ∀ last ∈ existing.getLast?, ∀ c ∈ last.number.toList, c.isDigit = true)
    (hm : migration.Numbered) (hname : migration.name = s!"{numberAfter existing}_{label}") :
    ∀ earlier ∈ existing, earlier.number < migration.number ∧ earlier.name < migration.name := by
  intro earlier hearlier
  obtain ⟨before, last, rfl⟩ : ∃ before last, existing = before ++ [last] :=
    ⟨_, _, (List.dropLast_append_getLast (List.ne_nil_of_mem hearlier)).symm⟩
  have hnumber : last.number < migration.number :=
    last_number_lt (hnumbered last (by simp))
      (hdigits last (by rw [List.getLast?_concat]; rfl)) hm hname
  have habove := (number_le_last hnumbered hascending earlier hearlier).trans_lt hnumber
  exact ⟨habove, (hnumbered _ hearlier).name_lt hm habove⟩

end MigrationStore

end SchemaHistory
