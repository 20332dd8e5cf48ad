import SchemaHistory.Calendar.Reading
import SchemaHistory.Proofs.Digits
import Mathlib.Data.List.TakeWhile

/-!
# The texts of dates and times

The readers take more than the writers produce, but what is written they read as the date or the
time that was written (`Date.read?_text`, `Time.read?_text`, `DateTime.readJoined?_text`,
`DateTime.readSpaced?_text`, `DateTime.readTight?_text`). A date with a time is written with a `T`
or with a blank in between, and neither text is read as the other form.
-/

namespace SchemaHistory

namespace Calendar

open Text

variable {c : Char} {cs rest : List Char} {width n : Nat}

/-! ### Numbers -/

theorem isBlank_of_isDigit (h : c.isDigit = true) : isBlank c = false := by
  have hdigit := isDigit_iff.mp h
  simp only [isBlank, CodeRanges.contains, blankRanges, List.any_cons, List.any_nil, Bool.or_false,
    Bool.or_eq_false_iff, Bool.and_eq_false_iff, decide_eq_false_iff_not]
  omega

theorem dropBlanks_cons (h : isBlank c = false) : dropBlanks (c :: cs) = c :: cs := by
  rw [dropBlanks, List.dropWhile_cons_of_neg (by simp [h])]

/-- There are only digits in a padded number. -/
theorem isDigit_of_mem_paddedNumber (h : c ∈ paddedNumber width n) : c.isDigit = true := by
  rcases List.mem_append.mp h with hzero | hdigit
  · rw [List.eq_of_mem_replicate hzero]
    rfl
  · exact isDigit_of_mem_digitsOfNumber hdigit

/-- The padding does not change the number. -/
theorem numberOfDigits_paddedNumber : numberOfDigits (paddedNumber width n) = n := by
  rw [paddedNumber, zeroPadded, numberOfDigits_replicate_append, numberOfDigits_digitsOfNumber]

/-- A number that fits is padded to exactly the width. -/
theorem length_paddedNumber (hwidth : 0 < width) (h : n < 10 ^ width) :
    (paddedNumber width n).length = width := by
  have hdigits : (digitsOfNumber n).length ≤ width :=
    (Nat.length_toDigits_le_iff (by decide) hwidth).mpr h
  rw [paddedNumber, zeroPadded, List.length_append, List.length_replicate]
  omega

theorem exists_paddedNumber (width n : Nat) :
    ∃ first others, paddedNumber width n = first :: others ∧ first.isDigit = true := by
  have hne : paddedNumber width n ≠ [] :=
    List.append_ne_nil_of_right_ne_nil _ Nat.toDigits_ne_nil
  obtain ⟨first, others, heq⟩ := List.exists_cons_of_ne_nil hne
  have hmem : first ∈ paddedNumber width n := by
    rw [heq]
    exact List.mem_cons_self
  exact ⟨first, others, heq, isDigit_of_mem_paddedNumber hmem⟩

theorem dropBlanks_paddedNumber : dropBlanks (paddedNumber width n ++ rest)
    = paddedNumber width n ++ rest := by
  obtain ⟨first, others, heq, hfirst⟩ := exists_paddedNumber width n
  rw [heq, List.cons_append, dropBlanks_cons (isBlank_of_isDigit hfirst)]

/-- A number written with as many digits as may be read is read, whatever follows. -/
theorem number?_paddedNumber (hwidth : 0 < width) (h : n < 10 ^ width) :
    number? width (paddedNumber width n ++ rest) = some (n, rest) := by
  have hlength := length_paddedNumber hwidth h
  have htake : (paddedNumber width n ++ rest).take width = paddedNumber width n := by
    rw [List.take_append_of_le_length (by omega), List.take_of_length_le (by omega)]
  have hdigits : (paddedNumber width n).takeWhile Char.isDigit = paddedNumber width n :=
    List.takeWhile_eq_self_iff.mpr fun c hc => isDigit_of_mem_paddedNumber hc
  have hsome : (paddedNumber width n).isEmpty = false := by
    rw [List.isEmpty_eq_false_iff]
    exact List.ne_nil_of_length_pos (by omega)
  simp only [number?, dropBlanks_paddedNumber, htake, hdigits, hsome, hlength,
    numberOfDigits_paddedNumber]
  rw [List.drop_left' hlength]
  rfl

theorem number?_eq_none (hblank : isBlank c = false) (hdigit : c.isDigit = false) :
    number? width (c :: cs) = none := by
  have hdigits : ((c :: cs).take width).takeWhile Char.isDigit = [] := by
    cases width with
    | zero => rfl
    | succ width => rw [List.take_succ_cons, List.takeWhile_cons_of_neg (by simp [hdigit])]
  simp only [number?, dropBlanks_cons hblank, hdigits]
  rfl

/-- All digits are read where something else follows. -/
theorem digits?_append (hcs : cs ≠ []) (hdigits : ∀ c ∈ cs, c.isDigit = true)
    (hrest : ∀ c ∈ rest.head?, c.isDigit = false) : digits? (cs ++ rest) = some (cs, rest) := by
  have hsome : cs.isEmpty = false := List.isEmpty_eq_false_iff.mpr hcs
  simp only [digits?, takeWhile_isDigit_append hdigits hrest,
    dropWhile_isDigit_append hdigits hrest,
    hsome]
  rfl

/-- All digits are read, up to what is no digit. -/
theorem digits?_paddedNumber (hrest : ∀ c ∈ rest.head?, c.isDigit = false) :
    digits? (paddedNumber width n ++ rest) = some (paddedNumber width n, rest) := by
  refine digits?_append ?_ (fun c hc => isDigit_of_mem_paddedNumber hc) hrest
  exact List.append_ne_nil_of_right_ne_nil _ Nat.toDigits_ne_nil

/-! ### Dates -/

/-- A year is read up to the hyphen, also one with a sign of its own. -/
theorem year?_yearText {year : Int} (rest : List Char) :
    year? (yearText year ++ '-' :: rest) = some (year, '-' :: rest) := by
  have hmark : ∀ c ∈ ('-' :: rest).head?, c.isDigit = false := by
    intro c hc
    cases hc
    rfl
  have hsign : ∀ sign, isBlank sign = false → ∀ cs, dropBlanks (sign :: cs) = sign :: cs :=
    fun sign hsign cs => dropBlanks_cons hsign
  unfold yearText
  by_cases hnegative : year < 0
  · have hyear : -(year.natAbs : Int) = year := by omega
    rw [if_pos hnegative, List.singleton_append, List.cons_append, year?,
      hsign '-' (by decide)]
    simp only [digits?_paddedNumber hmark, Option.map_some, numberOfDigits_paddedNumber, hyear]
  · by_cases hlarge : 9999 < year
    · have hyear : (year.natAbs : Int) = year := by omega
      rw [if_neg hnegative, if_pos hlarge, List.singleton_append, List.cons_append, year?,
        hsign '+' (by decide)]
      simp only [digits?_paddedNumber hmark, Option.map_some, numberOfDigits_paddedNumber, hyear]
    · have hyear : (year.natAbs : Int) = year := by omega
      have hnumber : number? 4 (paddedNumber 4 year.natAbs ++ '-' :: rest)
          = some (year.natAbs, '-' :: rest) := number?_paddedNumber (by decide) (by omega)
      rw [if_neg hnegative, if_neg hlarge, List.nil_append, year?, dropBlanks_paddedNumber]
      obtain ⟨first, others, heq, hfirst⟩ := exists_paddedNumber 4 year.natAbs
      rw [heq, List.cons_append] at hnumber ⊢
      split
      · next hcons =>
          rw [(List.cons.inj hcons).1] at hfirst
          cases hfirst
      · next hcons =>
          rw [(List.cons.inj hcons).1] at hfirst
          cases hfirst
      · simp only [hnumber, Option.map_some, hyear]

theorem mark?_cons (mark : Char) (rest : List Char) :
    mark? mark (mark :: rest) = some ((), rest) := if_pos rfl

theorem skip_cons (loose : Bool) (h : isBlank c = false) : skip loose (c :: cs) = c :: cs := by
  cases loose
  · rfl
  · exact dropBlanks_cons h

end Calendar

/-- The parts of a date make it up again. -/
theorem Date.of?_self (date : Date) : Date.of? date.year date.month date.day = some date := by
  rw [Date.of?, dif_pos date.year_mem, dif_pos date.month_mem, dif_pos date.day_mem]

theorem daysInMonth_le (year : Int) (month : Nat) : daysInMonth year month ≤ 31 := by
  unfold daysInMonth
  split
  · split <;> decide
  · split <;> decide

namespace Calendar

open Text

variable {rest : List Char} (loose : Bool)

/-- A date is read off the front of a text. -/
theorem scanDate?_text (date : Date) :
    scanDate? loose (date.text ++ rest) = some (date, rest) := by
  have hmonth : date.month < 10 ^ 2 := by
    have := date.month_mem
    omega
  have hday : date.day < 10 ^ 2 := by
    have := date.day_mem
    have := daysInMonth_le date.year date.month
    omega
  have hminus : isBlank '-' = false := by decide
  simp only [scanDate?, Date.text, List.append_assoc, List.cons_append, year?_yearText,
    skip_cons loose hminus, mark?_cons, number?_paddedNumber (n := date.month) (by decide) hmonth,
    number?_paddedNumber (n := date.day) (by decide) hday, Date.of?_self, Option.bind_eq_bind,
    Option.bind_some]
  rfl

/-! ### Times -/

/-- Digits after the point count from the left. -/
theorem nanosecondsOf_paddedNumber {width n : Nat} (hwidth : 0 < width ∧ width ≤ 9)
    (h : n < 10 ^ width) : nanosecondsOf (paddedNumber width n) = n * 10 ^ (9 - width) := by
  have hlength := length_paddedNumber hwidth.1 h
  rw [nanosecondsOf, List.take_of_length_le (by omega), numberOfDigits_paddedNumber, hlength,
    Nat.pow_eq]

/-- A fraction is read up to the end of the text. -/
theorem fraction?_fractionText {nanosecond : Nat} (h : nanosecond < 1000000000) :
    fraction? (fractionText nanosecond) = some (nanosecond, []) := by
  have hdigits : ∀ width n, 0 < width ∧ width ≤ 9 → n < 10 ^ width →
      n * 10 ^ (9 - width) = nanosecond →
      fraction? ('.' :: paddedNumber width n) = some (nanosecond, []) := by
    intro width n hwidth hn hvalue
    have hread : digits? (paddedNumber width n ++ []) = some (paddedNumber width n, []) :=
      digits?_paddedNumber nofun
    rw [List.append_nil] at hread
    simp only [fraction?, hread, Option.map_some, nanosecondsOf_paddedNumber hwidth hn, hvalue]
  unfold fractionText
  split
  · next hzero => exact hzero ▸ rfl
  split
  · next hthree => exact hdigits 3 _ (by decide) (by omega) (by omega)
  split
  · next hsix => exact hdigits 6 _ (by decide) (by omega) (by omega)
  · exact hdigits 9 _ (by decide) (by omega) (by omega)

/-- Hour and minute are read back, before any rest. -/
theorem scanHourMinute?_text (time : Time) : scanHourMinute? loose (paddedNumber 2 time.hour ++
      ':' :: paddedNumber 2 time.minute ++ rest) = some ((time.hour, time.minute), rest) := by
  have hhour : time.hour < 10 ^ 2 := time.hour_lt.trans (by decide)
  have hminute : time.minute < 10 ^ 2 := time.minute_lt.trans (by decide)
  have hcolon : isBlank ':' = false := by decide
  simp only [scanHourMinute?, List.append_assoc, List.cons_append,
    number?_paddedNumber (n := time.hour) (by decide) hhour, skip_cons loose hcolon, mark?_cons,
    number?_paddedNumber (n := time.minute) (by decide) hminute, Option.bind_eq_bind,
    Option.bind_some]
  rfl

theorem scanSecond?_text (time : Time) : scanSecond? loose (':' :: paddedNumber 2 time.second ++
      fractionText time.nanosecond) = some ((time.second, time.nanosecond), []) := by
  have hsecond : time.second < 10 ^ 2 := by
    have := time.second_le
    omega
  have hcolon : isBlank ':' = false := by decide
  have hinside : ¬60 < time.second := not_lt.mpr time.second_le
  simp only [scanSecond?, List.cons_append, skip_cons loose hcolon, mark?_cons,
    number?_paddedNumber (n := time.second) (by decide) hsecond, Option.bind_eq_bind,
    Option.bind_some, if_neg hinside, fraction?_fractionText time.nanosecond_lt]
  rfl

theorem text_eq (time : Time) : time.text
    = (paddedNumber 2 time.hour ++ ':' :: paddedNumber 2 time.minute) ++
      (':' :: paddedNumber 2 time.second ++ fractionText time.nanosecond) := by
  simp [Time.text]

end Calendar

/-- The parts of a time make it up again, a leap second included. -/
theorem Time.of?_self (time : Time) :
    Time.of? time.hour time.minute time.second time.nanosecond = some time := by
  rw [Time.of?, dif_pos time.hour_lt, dif_pos time.minute_lt, dif_pos time.second_le,
    dif_pos time.nanosecond_lt]

/-- A time of day is read from a text that ends with it. -/
theorem Calendar.scanTime?_text (loose : Bool) (time : Time) :
    scanTime? loose time.text = some (time, []) := by
  simp only [scanTime?, text_eq, scanHourMinute?_text, scanSecond?_text, Time.of?_self,
    Option.bind_eq_bind, Option.bind_some]
  rfl

open Calendar

/-- A date is read from its text. -/
theorem Date.read?_text (date : Date) : Date.read? (String.ofList date.text) = some date := by
  have hscan : scanDate? true (date.text ++ []) = some (date, []) := scanDate?_text true date
  rw [List.append_nil] at hscan
  rw [Date.read?, String.toList_ofList, hscan]
  rfl

/-- A time of day is read from its text. -/
theorem Time.read?_text (time : Time) : Time.read? (String.ofList time.text) = some time := by
  simp only [Time.read?, String.toList_ofList, text_eq, scanHourMinute?_text, scanSecond?_text,
    Option.getD_some, Time.of?_self, Option.bind_eq_bind, Option.bind_some]
  rfl

/-- A date with a time is read from its text. -/
theorem DateTime.readJoined?_text (moment : DateTime) :
    DateTime.readJoined? (String.ofList (moment.text 'T')) = some moment := by
  have hblank : Text.isBlank 'T' = false := by decide
  simp only [DateTime.readJoined?, String.toList_ofList, DateTime.text, scanDate?_text,
    dropBlanks_cons hblank, mark?_cons, scanTime?_text, Option.bind_eq_bind, Option.bind_some]
  rfl

namespace DateTime

variable {moment : DateTime} {separator : Char} {between : Scanner Unit}

/-- A date with a time is read wherever the time is found after what stands in between. -/
theorem readStrict?_text
    (h : between (separator :: moment.time.text) = some ((), moment.time.text)) :
    readStrict? between (String.ofList (moment.text separator)) = some moment := by
  simp only [readStrict?, String.toList_ofList, DateTime.text, scanDate?_text, h, scanTime?_text,
    Option.bind_eq_bind, Option.bind_some]
  rfl

theorem dropBlanks_timeText (time : Time) : Text.dropBlanks (' ' :: time.text) = time.text := by
  have hblank : Text.isBlank ' ' = true := by decide
  rw [Text.dropBlanks, List.dropWhile_cons_of_pos hblank, ← Text.dropBlanks, text_eq,
    List.append_assoc, dropBlanks_paddedNumber]

/-- A date with a time is read from its text with a blank in between. -/
theorem readSpaced?_text (moment : DateTime) :
    readSpaced? (String.ofList (moment.text ' ')) = some moment :=
  readStrict?_text (congrArg (fun rest => some ((), rest)) (dropBlanks_timeText moment.time))

/-- A date with a time is read from its text with a `T` directly in between. -/
theorem readTight?_text (moment : DateTime) :
    readTight? (String.ofList (moment.text 'T')) = some moment :=
  readStrict?_text (mark?_cons 'T' moment.time.text)

/-- The reader that wants a `T` stops at the first digit of the time. -/
theorem readJoined?_spaced (moment : DateTime) :
    readJoined? (String.ofList (moment.text ' ')) = none := by
  have hmark : mark? 'T' moment.time.text = none := by
    obtain ⟨first, others, heq, hfirst⟩ := exists_paddedNumber 2 moment.time.hour
    rw [text_eq, heq]
    refine if_neg ?_
    rintro rfl
    cases hfirst
  simp only [readJoined?, String.toList_ofList, DateTime.text, scanDate?_text, dropBlanks_timeText,
    hmark, Option.bind_eq_bind, Option.bind_some, Option.bind_none]

/-- The reader that wants blanks or nothing stops at the `T`, where the hour should stand. -/
theorem readSpaced?_joined (moment : DateTime) :
    readSpaced? (String.ofList (moment.text 'T')) = none := by
  have hblank : Text.isBlank 'T' = false := by decide
  have hhour : ∀ cs, number? 2 ('T' :: cs) = none := fun cs => number?_eq_none hblank rfl
  simp only [readSpaced?, readStrict?, String.toList_ofList, DateTime.text, scanDate?_text,
    dropBlanks_cons hblank, scanTime?, scanHourMinute?, hhour, Option.bind_eq_bind,
    Option.bind_some, Option.bind_none]

end DateTime

/-! ### Quotes -/

namespace Calendar

theorem quote_notMem_paddedNumber {width n : Nat} : '\'' ∉ paddedNumber width n :=
  fun hmem => absurd (isDigit_of_mem_paddedNumber hmem) (by decide)

theorem quote_notMem_dateText (date : Date) : '\'' ∉ date.text := by
  have hsign : '\'' ∉ if date.year < 0 then ['-'] else if 9999 < date.year then ['+'] else [] := by
    split
    · decide
    split <;> decide
  simp [Date.text, yearText, hsign, quote_notMem_paddedNumber]

theorem quote_notMem_timeText (time : Time) : '\'' ∉ time.text := by
  have hfraction : '\'' ∉ fractionText time.nanosecond := by
    unfold fractionText
    split
    · nofun
    split
    · simp [quote_notMem_paddedNumber]
    split <;> simp [quote_notMem_paddedNumber]
  simp [Time.text, hfraction, quote_notMem_paddedNumber]

/-- No moment has a quote in its text, so nothing in it has to be escaped. -/
theorem quote_notMem_dateTimeText {moment : DateTime} {separator : Char} (h : separator ≠ '\'') :
    '\'' ∉ moment.text separator := by
  simp [DateTime.text, quote_notMem_dateText, quote_notMem_timeText, h.symm]

end Calendar

end SchemaHistory
