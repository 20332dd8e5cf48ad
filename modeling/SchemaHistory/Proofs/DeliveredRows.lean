import SchemaHistory.Backend.Journal
import SchemaHistory.Proofs.RoundTrip
import SchemaHistory.Proofs.TableRows

/-!
# Rows by field and by column

A row is written under the columns of its fields and handed back by field. Reading takes a column
out of the row for each field in turn, so that it counts which field comes first only where two have
one column. Where the columns have different names, as a table needs it, each field gets what its
own column holds (`Row.get?_byField`), whatever the columns are called; a column may have the name
of another field. Hence a row comes back under the fields that it was written with
(`Backend.rows_come_back`).
-/

namespace SchemaHistory

namespace Row

/-! ### Rows by field -/

variable {fields : Fields} {row : Row} {name : String} {field : Field}

/-- A row by field has the names of the fields, whatever its columns are. -/
theorem mem_names_byField : name ∈ (byField fields row).names ↔ name ∈ fields.names := by
  induction fields generalizing row with
  | nil => rfl
  | cons entry rest ih => rw [byField, Named.mem_names_insert, ih, Named.names_cons, List.mem_cons]

/-- A row by field has all fields, each of them once. -/
theorem names_byField_perm (hfields : fields.names.Nodup) :
    (byField fields row).names.Perm fields.names := by
  induction fields generalizing row with
  | nil => exact List.Perm.refl _
  | cons entry rest ih =>
      obtain ⟨hnew, hrest⟩ := List.nodup_cons.mp hfields
      have hmissing : (byField rest (row.erase (entry.2.columnName entry.1))).get? entry.1 = none :=
        Named.get?_eq_none_iff.mpr (mt mem_names_byField.mp hnew)
      have hfirst := (Named.insert_perm (a := (row.get? (entry.2.columnName entry.1)).getD .null)
        hmissing).map (·.1)
      exact hfirst.trans ((ih hrest).cons entry.1)

/-- Where no two fields have one column, each gets what is in its own. -/
theorem get?_byField (hfields : fields.names.Nodup)
    (hcolumns : (fields.map fun entry => entry.2.columnName entry.1).Nodup)
    (h : (name, field) ∈ fields) :
    (byField fields row).get? name = some ((row.get? (field.columnName name)).getD .null) := by
  induction fields generalizing row with
  | nil => cases h
  | cons entry rest ih =>
      obtain ⟨hnew, hrest⟩ := List.nodup_cons.mp hfields
      obtain ⟨hnewColumn, hrestColumns⟩ := List.nodup_cons.mp hcolumns
      rw [byField, Named.get?_insert]
      rcases List.mem_cons.mp h with rfl | h
      · rw [if_pos rfl]
      · have hname : entry.1 ≠ name :=
          (ne_of_mem_of_not_mem (List.mem_map_of_mem h) hnew).symm
        -- what was taken out for the first field is another column
        have hcolumn : entry.2.columnName entry.1 ≠ field.columnName name :=
          (ne_of_mem_of_not_mem (List.mem_map_of_mem h) hnewColumn).symm
        rw [if_neg hname, ih hrest hrestColumns h, Named.get?_erase, if_neg hcolumn]

end Row

namespace Record

/-! ### What is stored and what is shown -/

/-- Each of some values is held by its column. What others hold is left open. -/
def Holds (assigned : List (String × Value)) (record : Record) : Prop :=
  ∀ entry ∈ assigned, record entry.1 = some entry.2

/-- An answer to a query for some columns shows what they hold. -/
def ShownBy (columns : List String) (record : Record) (answer : Row) : Prop :=
  ∀ column ∈ columns, answer.get? column = record column

end Record

/-- A row by field that a model hands out for a row of its table, into which some values were
written. It has the fields of the model, with the values that were written and else with what the
table holds in their columns; and what a column holds goes to one field and no other. -/
structure Model.Delivers (model : Model) (values : Row) (record : Record) (row : Row) : Prop where
  names : row.names.Perm model.fields.names
  written : ∀ name ∈ model.fields.names, ∀ value, values.get? name = some value →
    row.get? name = some value
  held : ∀ name field, model.field? name = some field → values.get? name = none →
    row.get? name = some ((record (field.columnName name)).getD .null)
  once : ∀ column ∈ model.columns, ∃! name, ∃ field, model.field? name = some field ∧
    field.columnName name = column ∧ row.get? name = some ((record column).getD .null)

namespace Backend

variable {σ : Type} {backend : Backend σ} {model : Model} {values : Row} {record : Record}
  {answer : Row} {condition : Condition Lookup} {tests : Condition Test}

/-- A value that is given for a field is written into its column. -/
theorem mem_insertValues {name : String} {field : Field} {value : Value}
    (hfield : (name, field) ∈ model.fields) (hvalue : values.get? name = some value) :
    (field.columnName name, value) ∈ insertValues model values := by
  refine List.mem_filterMap.mpr ⟨(name, field), hfield, ?_⟩
  dsimp only
  rw [hvalue]
  rfl

/-- What a model hands out for an answer that shows a row of its table. -/
theorem delivers_byField (hfields : model.fields.names.Nodup) (hcolumns : model.columns.Nodup)
    (hrecord : record.Holds (insertValues model values))
    (hanswer : record.ShownBy model.columns answer) :
    model.Delivers values record (Row.byField model.fields answer) := by
  have hget : ∀ name field, (name, field) ∈ model.fields →
      (Row.byField model.fields answer).get? name
        = some ((record (field.columnName name)).getD .null) := by
    intro name field h
    have hcolumn : field.columnName name ∈ model.columns := List.mem_map.mpr ⟨_, h, rfl⟩
    rw [Row.get?_byField hfields hcolumns h, hanswer _ hcolumn]
  constructor
  · exact Row.names_byField_perm hfields
  · intro name hname value hvalue
    obtain ⟨⟨_, field⟩, hfield, rfl⟩ := List.mem_map.mp hname
    rw [hget _ _ hfield, hrecord _ (mem_insertValues hfield hvalue)]
    rfl
  · exact fun name field hfield _ => hget _ _ (Named.mem_of_get? hfield)
  · intro column hcolumn
    obtain ⟨⟨name, field⟩, hfield, rfl⟩ := List.mem_map.mp hcolumn
    refine ⟨name, ⟨field, Named.get?_of_mem hfields hfield, rfl, hget _ _ hfield⟩, ?_⟩
    rintro other ⟨otherField, hother, heq, -⟩
    have hsame : (other, otherField) = (name, field) :=
      List.inj_on_of_nodup_map hcolumns (Named.mem_of_get? hother) hfield heq
    exact congrArg Prod.fst hsame

variable (backend model values)

/-- Let the columns of a model have different names, which may be those of other fields, and let a
condition have a meaning in it. One statement writes a new row, and one query finds rows. Where the
query is answered, as many rows are handed out; and what is handed out for an answer that shows a
row with the values written in it has the fields of the model, with these values and else with what
the columns of the row hold. -/
theorem rows_come_back (hfields : model.fields.names.Nodup) (hcolumns : model.columns.Nodup)
    (hkey : model.key ∈ model.fields.names) (hresolve : condition.resolve model = .ok tests) :
    backend.insert model values
        = backend.execute (.insert model.table (insertValues model values)) ∧
      ∃ key, model.column model.key = .ok key ∧
        ∀ s answers t, backend.query (.select model.table model.columns tests key) s =
          .ok answers t →
          ∃ rows, backend.select model condition s = .ok rows t ∧
            List.Forall₂ (fun answer row => ∀ record : Record,
              record.Holds (insertValues model values) → record.ShownBy model.columns answer →
                model.Delivers values record row) answers rows := by
  obtain ⟨field, hfield⟩ := Named.mem_names_iff.mp hkey
  have hcolumn : model.column model.key = .ok (field.columnName model.key) := by
    rw [Model.column, Model.field?, hfield]
  refine ⟨rfl, field.columnName model.key, hcolumn, fun s answers t hquery => ?_⟩
  refine ⟨answers.map (Row.byField model.fields), ?_, ?_⟩
  · unfold select
    rw [hresolve, hcolumn]
    show (backend.query _ >>= fun rows => pure (rows.map (Row.byField model.fields))) s = _
    exact bind_eq_ok.mpr ⟨answers, t, hquery, rfl⟩
  · refine List.forall₂_map_right_iff.mpr (List.forall₂_same.mpr fun answer _ => ?_)
    exact fun record => delivers_byField hfields hcolumns

/-- Notes whose titles are in the column of texts, and texts in that of titles. -/
def crossedModel : Model where
  app := "notes"
  name := "Note"
  table := "note"
  key := "id"
  fields := [("id", .ofKind .auto), ("title", { Field.ofKind .text with column := some "text" }),
    ("text", { Field.ofKind .text with column := some "title" })]
  indexes := []

/-- The title of a note comes back as its title, and the text that its table fills in as its
text. -/
theorem crossed_note_comes_back : ∃ row t,
    (Journal.backend .sqlite Operation.noteMoment).select crossedModel .empty
        { answers := [[[("id", .int 1), ("text", .text "Emma"), ("title", .text "-")]]] }
      = .ok [row] t ∧
    row.get? "title" = some (.text "Emma") ∧ row.get? "text" = some (.text "-") ∧
    row.names.Perm ["id", "title", "text"] := by
  obtain ⟨-, key, hkey, hrows⟩ := rows_come_back (Journal.backend .sqlite Operation.noteMoment)
    crossedModel [("title", .text "Emma")] (by decide) (by decide) (by decide)
    (rfl : Condition.empty.resolve crossedModel = .ok .empty)
  cases hkey
  obtain ⟨rows, hselect, hdelivered⟩ := hrows
    { answers := [[[("id", .int 1), ("text", .text "Emma"), ("title", .text "-")]]] } _ _ rfl
  obtain ⟨row, rest, hrow, hnone, rfl⟩ := List.forall₂_cons_left_iff.mp hdelivered
  cases hnone
  have hnote := hrow (fun column => Named.get? column _) (List.forall_mem_singleton.mpr rfl)
    fun _ _ => rfl
  exact ⟨row, _, hselect, hnote.written "title" (by decide) _ rfl, hnote.held "text" _ rfl rfl,
    hnote.names⟩

end Backend

end SchemaHistory
