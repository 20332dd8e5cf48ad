import SchemaHistory.Ledger
import SchemaHistory.Proofs.FieldDocuments

/-!
# Dates and times in texts

A document holds a date, a time or a moment as a string, and a literal holds it in quotes. The two
texts of a moment differ in what stands between the date and the time, and there are two readers
that try the forms in turn: a column takes the form of documents first (`Value.parse?`), the ledger
that of literals (`Ledger.appliedOf`). Either finds from both texts what was written.
-/

namespace SchemaHistory

/-- A scalar that documents can hold is read from its text. -/
theorem Json.read?_compact_scalar {scalar : Json.Scalar} (h : scalar.Legible) :
    Json.read? (Json.scalar scalar).compact = some (.scalar scalar) := by
  have htext : (Json.scalar scalar).compact = (Json.scalar scalar).pretty := by
    rw [compact, tokens, List.flatMap_singleton]
    rfl
  rw [htext, read?_pretty_eq (.scalar h)]

namespace Value

/-- The value is a date, a time or a moment, and columns of the type are meant for such. -/
inductive Temporal : ColumnType → Value → Prop
  | date (d : Date) : Temporal .date (.date d)
  | time (t : Time) : Temporal .time (.time t)
  | dateTime (m : DateTime) : Temporal .dateTime (.dateTime m)

variable {value : Value} {type : ColumnType}

/-! ### Literals -/

/-- Where no mark stands inside, none is written twice. -/
theorem quoted_eq {mark : Char} {cs : List Char} (h : mark ∉ cs) :
    quoted mark cs = mark :: cs ++ [mark] := by
  have hplain : ∀ c ∈ cs, (if c = mark then [mark, mark] else [c]) = [c] := by
    intro c hc
    refine if_neg ?_
    rintro rfl
    exact h hc
  rw [quoted, List.flatMap_congr hplain, List.flatMap_singleton']

/-- The literal of a date, a time or a moment is its text in quotes, with nothing written twice. -/
theorem Temporal.literal_eq (h : Temporal type value) :
    value.literal = '\'' :: value.bare ++ ['\''] := by
  cases h with
  | date d => exact quoted_eq (Calendar.quote_notMem_dateText d)
  | time t => exact quoted_eq (Calendar.quote_notMem_timeText t)
  | dateTime m => exact quoted_eq (Calendar.quote_notMem_dateTimeText (by decide))

/-- A moment is read from its bare text. -/
theorem Temporal.parse?_bare (h : Temporal type value) :
    parse? type (String.ofList value.bare) = some value := by
  cases h with
  | date d =>
      show (Date.read? (String.ofList d.text)).map Value.date = _
      rw [Date.read?_text, Option.map_some]
  | time t =>
      show (Time.read? (String.ofList t.text)).map Value.time = _
      rw [Time.read?_text, Option.map_some]
  | dateTime m =>
      let s := String.ofList (m.text ' ')
      show ((DateTime.readJoined? s).or (DateTime.readSpaced? s)).map Value.dateTime = _
      rw [DateTime.readJoined?_spaced, Option.none_or, DateTime.readSpaced?_text, Option.map_some]

/-! ### Documents -/

/-- Its type keeps it. -/
theorem Temporal.keptBy (h : Temporal type value) : value.KeptBy type := by
  cases h <;> rfl

theorem Temporal.exists_toScalar_eq (h : Temporal type value) :
    ∃ s, value.toScalar = .string s := by
  cases h <;> exact ⟨_, rfl⟩

end Value

/-! ### The ledger -/

namespace Ledger

variable {row : Row} {s : String}

/-- The moment of an entry is read in the one form or the other. -/
theorem appliedOf_text (h : row.get? "applied" = some (.text s)) :
    appliedOf row = (DateTime.readSpaced? s).or (DateTime.readTight? s) := by
  rw [appliedOf, h]

/-- The ledger reads a moment from the text it has in a literal. -/
theorem appliedOf_spaced {moment : DateTime}
    (h : row.get? "applied" = some (.text (String.ofList (moment.text ' ')))) :
    appliedOf row = some moment := by
  rw [appliedOf_text h, DateTime.readSpaced?_text, Option.some_or]

/-- The ledger reads a moment from the text it has in a document. -/
theorem appliedOf_joined {moment : DateTime}
    (h : row.get? "applied" = some (.text (String.ofList (moment.text 'T')))) :
    appliedOf row = some moment := by
  rw [appliedOf_text h, DateTime.readSpaced?_joined, Option.none_or, DateTime.readTight?_text]

end Ledger

/-! ### Both readers -/

namespace Value

/-- Where a text is read, it is read as the value: in a column of the type and, if the value is a
moment, in a row of the ledger. -/
structure ReadFrom (s : String) (type : ColumnType) (value : Value) : Prop where
  column : coerce type (.text s) = value
  ledger : ∀ moment, value = .dateTime moment → ∀ row : Row,
    row.get? "applied" = some (.text s) → Ledger.appliedOf row = some moment

variable {value : Value} {type : ColumnType}

/-- The text in a document is read as the value it was written for. -/
theorem Temporal.readFrom_document {s : String} (h : Temporal type value)
    (htext : value.toScalar = .string s) : ReadFrom s type value where
  column := by
    have hread := h.keptBy.coerce_ofScalar
    rwa [htext] at hread
  ledger := by
    rintro moment rfl row hrow
    cases htext
    exact Ledger.appliedOf_joined hrow

theorem Temporal.readFrom_literal (h : Temporal type value) :
    ReadFrom (String.ofList value.bare) type value where
  column := by
    rw [coerce, h.parse?_bare, Option.getD_some]
  ledger := by
    rintro moment rfl row hrow
    exact Ledger.appliedOf_spaced hrow

/-- A date, a time or a moment has a text in documents and one in the quotes of its literal, and is
found again from either. -/
theorem found_in_texts (h : Temporal type value) :
    (∃ s, Json.read? (Json.scalar value.toScalar).compact = some (.string s) ∧
      ReadFrom s type value) ∧
    ∃ s : String, value.literal = '\'' :: s.toList ++ ['\''] ∧ ReadFrom s type value := by
  constructor
  · obtain ⟨s, htext⟩ := h.exists_toScalar_eq
    refine ⟨s, ?_, h.readFrom_document htext⟩
    rw [Json.read?_compact_scalar h.keptBy.legible, htext]
  · refine ⟨String.ofList value.bare, ?_, h.readFrom_literal⟩
    rw [String.toList_ofList, h.literal_eq]

/-- The last day before the year 0, in a leap second. -/
def lastLeapSecond : DateTime where
  date := ⟨-1, 12, 31, by decide, by decide, by decide⟩
  time := ⟨23, 59, 60, 1, by decide, by decide, by decide, by decide⟩

theorem last_leap_second_found_in_texts :
    Temporal .dateTime (dateTime lastLeapSecond) ∧
    ReadFrom "-0001-12-31T23:59:60.000000001" .dateTime (dateTime lastLeapSecond) ∧
    ReadFrom "-0001-12-31 23:59:60.000000001" .dateTime (dateTime lastLeapSecond) := by
  have h : Temporal .dateTime (dateTime lastLeapSecond) := .dateTime lastLeapSecond
  have hjoined : String.ofList (lastLeapSecond.text 'T') = "-0001-12-31T23:59:60.000000001" := by
    decide
  have hspaced : (dateTime lastLeapSecond).literal
      = '\'' :: "-0001-12-31 23:59:60.000000001".toList ++ ['\''] := by decide
  obtain ⟨⟨joined, hdocument, hread⟩, spaced, hliteral, hread'⟩ := found_in_texts h
  rw [Json.read?_compact_scalar h.keptBy.legible, toScalar, hjoined] at hdocument
  rw [hspaced] at hliteral
  cases hdocument
  have hsame := List.append_cancel_right (List.cons.inj hliteral).2
  rw [String.toList_inj] at hsame
  exact ⟨h, hread, hsame ▸ hread'⟩

end Value

end SchemaHistory
