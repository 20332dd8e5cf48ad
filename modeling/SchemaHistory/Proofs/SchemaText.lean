import SchemaHistory.Proofs.SqlGrammar
import SchemaHistory.Statement

/-!
# The text of schema changes

Whatever characters the names and the defaults of a schema change are made of, its text is read as
exactly one statement, which says what the change says (`Statement.read_schema_text`).

`Definition.Says` compares the two: the statement that was read and the one that was written, with
the types and the spelling of literals left to the dialect. The proof spells the text from its
parts: names in quotes, literals (`exists_literal`), columns with their constraints
(`exists_column`), lists in parentheses (`spells_list`), and then one case for each kind of change
(`exists_definition`). `hostileTable` has names that try to end the quotes they stand in.
-/

namespace SchemaHistory

namespace Sql

variable {cs ds : List Char} {tokens more : List Token}

/-! ### Defaults -/

/-- Whether a literal stands for a value in a dialect: a number for a number or, where there are no
truth values, for one of those, and a text for a text, a date or a time with the same characters. -/
def Literal.Denotes (dialect : Dialect) : Literal → Value → Prop
  | null, .null => True
  | truth value, .bool b => dialect ≠ .sqlite ∧ value = b
  | number negative digits places, .bool b =>
    dialect = .sqlite ∧ negative = false ∧ digits = b.toNat ∧ places = 0
  | number negative digits places, .int n =>
    places = 0 ∧ n.toInt = if negative then -(digits : Int) else digits
  | number negative digits places, .float x => x = .ofDecimal negative digits (-places)
  | text s, .text t => s = t
  | text s, .date d => s.toList = d.text
  | text s, .time t => s.toList = t.text
  | text s, .dateTime m => s.toList = m.text ' '
  | _, _ => False

/-- A value that has a literal: any but the floats that are no numbers. -/
def HasLiteral : Value → Prop
  | .float x => x.isFinite = true
  | _ => True

theorem spells_signed (negative : Bool) {digits places : Nat}
    (h : Spells cs [.number digits places]) :
    Spells ((if negative then ['-'] else []) ++ cs)
      (Literal.number negative digits places).tokens := by
  cases negative with
  | false => exact h
  | true => exact h.mark rfl

theorem spells_int (n : Int) :
    Spells (Json.integerText n) (Literal.number (n < 0) n.natAbs 0).tokens := by
  have hsigned := spells_signed (n < 0) (spells_digits n.natAbs)
  simpa [Json.integerText] using hsigned

/-- A finite float is read as the number that it is. -/
theorem exists_float (dialect : Dialect) {x : Binary64} (h : x.isFinite = true) :
    ∃ literal : Literal, literal.Denotes dialect (.float x) ∧
      Spells (x.text .plain).toList literal.tokens := by
  cases x with
  | infinite => cases h
  | nan => cases h
  | finite negative ordinal bounded =>
      obtain ⟨numeral, hwell, htext, hordinal, hplain, -⟩ :=
        Binary64.exists_numeral .plain bounded
      have hexponent : numeral.exponent = none := hplain fun _ => rfl
      refine ⟨.number negative (Text.numberOfDigits (numeral.whole ++ numeral.fraction))
        numeral.fraction.length, ?_, ?_⟩
      · have hvalue : Binary64.ofOrdinal negative numeral.ordinal
            = .finite negative ordinal bounded := by
          rw [hordinal, Binary64.ofOrdinal, dif_pos bounded]
        rw [Numeral.ordinal, hexponent, Option.getD_none, Int.zero_sub] at hvalue
        exact hvalue.symm
      · rw [Binary64.text, String.toList_ofList, htext]
        exact spells_signed negative (spells_numeral hwell hexponent)

/-- A value with a literal spells one, which denotes it. -/
theorem exists_literal (dialect : Dialect) {value : Value} (h : HasLiteral value) :
    ∃ literal : Literal, literal.Denotes dialect value ∧
      Spells (dialect.literal value) literal.tokens := by
  have hother : (∀ b, value ≠ .bool b) → dialect.literal value = value.literal := by
    intro hbool
    cases dialect with
    | sqlite => cases value <;> first | rfl | exact absurd rfl (hbool _)
    | _ => rfl
  cases value with
  | null =>
      rw [hother nofun]
      exact ⟨.null, trivial, spells_keyword "NULL" rfl⟩
  | bool b =>
      by_cases hdialect : dialect = .sqlite
      · subst hdialect
        cases b with
        | true => exact ⟨.number false 1 0, ⟨rfl, rfl, rfl, rfl⟩, spells_digits 1⟩
        | false => exact ⟨.number false 0 0, ⟨rfl, rfl, rfl, rfl⟩, spells_digits 0⟩
      · have hliteral : dialect.literal (.bool b) = (Value.bool b).literal := by
          cases dialect with
          | sqlite => exact absurd rfl hdialect
          | _ => rfl
        rw [hliteral]
        cases b with
        | true => exact ⟨.truth true, ⟨hdialect, rfl⟩, spells_keyword "TRUE" rfl⟩
        | false => exact ⟨.truth false, ⟨hdialect, rfl⟩, spells_keyword "FALSE" rfl⟩
  | int n =>
      rw [hother nofun]
      refine ⟨.number (n.toInt < 0) n.toInt.natAbs 0, ⟨rfl, ?_⟩, spells_int n.toInt⟩
      by_cases hnegative : n.toInt < 0
      · rw [if_pos (decide_eq_true hnegative)]
        omega
      · rw [if_neg (by simpa using hnegative)]
        omega
  | float x =>
      rw [hother nofun]
      exact exists_float dialect h
  | text s =>
      rw [hother nofun]
      exact ⟨.text (String.ofList s.toList), String.ofList_toList, spells_text s.toList⟩
  | date d =>
      rw [hother nofun]
      exact ⟨.text (String.ofList d.text), String.toList_ofList, spells_text d.text⟩
  | time t =>
      rw [hother nofun]
      exact ⟨.text (String.ofList t.text), String.toList_ofList, spells_text t.text⟩
  | dateTime m =>
      rw [hother nofun]
      exact ⟨.text (String.ofList (m.text ' ')), String.toList_ofList, spells_text (m.text ' ')⟩

/-! ### Columns -/

/-- Parts with blanks between them. -/
theorem spells_joined {parts : List (List Char)} {read : List (List Token)}
    (h : List.Forall₂ Spells parts read) : Spells (joined " " parts) read.flatten := by
  induction h with
  | nil => exact spells_nil
  | @cons part tokens parts read hpart hrest ih =>
      cases hrest with
      | nil =>
          show Spells ([' '].intercalate [part]) (tokens ++ [])
          rw [List.intercalate_singleton, List.append_nil]
          exact hpart
      | @cons next more nexts mores hnext hmore =>
          show Spells ([' '].intercalate (part :: next :: nexts)) _
          rw [List.intercalate_cons_cons, List.append_assoc]
          exact hpart.append_blank ih

def TypeName.text (type : TypeName) : List Char :=
  joined " " (type.words.map String.toList) ++
    (type.length.map fun length => '(' :: (Text.digitsOfNumber length ++ [')'])).getD []

theorem spells_type {type : TypeName} (h : type.words.all isKeyword = true) :
    Spells type.text type.tokens := by
  have hwords : Spells (joined " " (type.words.map String.toList)) (type.words.map .word) := by
    have hall : List.Forall₂ Spells (type.words.map String.toList)
        (type.words.map fun word => [.word word]) := by
      rw [List.forall₂_map_left_iff, List.forall₂_map_right_iff, List.forall₂_same]
      exact fun word hmem => spells_keyword word (List.all_eq_true.mp h word hmem)
    simpa [← List.flatMap_def, ← List.map_eq_flatMap] using spells_joined hall
  refine hwords.append ?_ ?_
  · cases type.length with
    | none => exact spells_nil
    | some length =>
        have hclosing : Spells [')'] [.mark ')'] := spells_nil.mark rfl
        exact Spells.mark rfl ((spells_digits length).append hclosing fun rest _ =>
          apart_cons (.inr (.inr (.inr rfl))) rest)
  · intro rest hrest
    cases type.length with
    | none => exact hrest
    | some length => exact apart_cons (.inr (.inr (.inl rfl))) _

/-- The name of the type of a column in a dialect. -/
def typeName : Dialect → ColumnType → TypeName
  | .postgres, .integer => ⟨["BIGINT"], none⟩
  | .postgres, .varchar length => ⟨["VARCHAR"], some length.toNat⟩
  | .postgres, .text => ⟨["TEXT"], none⟩
  | .postgres, .boolean => ⟨["BOOLEAN"], none⟩
  | .postgres, .double => ⟨["DOUBLE", "PRECISION"], none⟩
  | .postgres, .date => ⟨["DATE"], none⟩
  | .postgres, .time => ⟨["TIME"], none⟩
  | .postgres, .dateTime => ⟨["TIMESTAMP"], none⟩
  | _, .integer | _, .boolean => ⟨["INTEGER"], none⟩
  | _, .double => ⟨["REAL"], none⟩
  | _, _ => ⟨["TEXT"], none⟩

/-- The name of a type is written as the dialect writes the type. -/
theorem typeName_text (dialect : Dialect) (type : ColumnType) :
    (typeName dialect type).text = dialect.typeText type := by
  cases dialect <;> cases type <;> rfl

theorem isKeyword_typeName (dialect : Dialect) (type : ColumnType) :
    (typeName dialect type).words.all isKeyword = true := by
  cases dialect <;> cases type <;> rfl

theorem plain_typeName (dialect : Dialect) (type : ColumnType) : (typeName dialect type).Plain := by
  have hnone : (typeName dialect type).words.all (!constraintWords.contains ·) = true := by
    cases dialect <;> cases type <;> rfl
  constructor
  · cases dialect <;> cases type <;> exact List.cons_ne_nil _ _
  · intro letters hletters
    simpa using List.all_eq_true.mp hnone letters hletters

/-- What the dialect says of a column that the database counts up. -/
def countedType : Dialect → TypeName × List Constraint
  | .sqlite => (⟨["INTEGER"], none⟩, [.notNull, .primaryKey, .counted])
  | .postgres => (⟨["BIGSERIAL"], none⟩, [.primaryKey])
  | .generic .. => (⟨["INTEGER"], none⟩, [.primaryKey])

/-- The constraints of a column that is not counted, except for its default. -/
def flags (column : Column) : List Constraint :=
  if column.key then [.primaryKey]
  else (if column.null then [] else [.notNull]) ++ if column.unique then [.unique] else []

/-- Whether a definition says of a column what the column is. -/
def ColumnDefinition.Defines (dialect : Dialect) (definition : ColumnDefinition) (column : Column) :
    Prop :=
  definition.name = column.name ∧
    if column.counted then (definition.type, definition.constraints) = countedType dialect
    else definition.type.text = dialect.typeText column.type ∧
      ∃ defaults : List Literal, definition.constraints = flags column ++ defaults.map .default ∧
        List.Forall₂ (Literal.Denotes dialect) defaults column.default.toList

/-- The column that counts is spelled as its type and its constraints. -/
theorem spells_counted (dialect : Dialect) : Spells dialect.countedColumn
    ((countedType dialect).1.tokens ++ (countedType dialect).2.flatMap Constraint.tokens) := by
  cases dialect with
  | sqlite =>
      exact (spells_keyword "AUTOINCREMENT" rfl).phrase
        ["INTEGER", "NOT", "NULL", "PRIMARY", "KEY"] rfl
  | postgres => exact (spells_keyword "KEY" rfl).phrase ["BIGSERIAL", "PRIMARY"] rfl
  | generic => exact (spells_keyword "KEY" rfl).phrase ["INTEGER", "PRIMARY"] rfl

/-- The flags of a column are spelled as its constraints. -/
theorem spells_flags (column : Column) : List.Forall₂ Spells
    (if column.key then ["PRIMARY KEY".toList]
      else (if column.null then [] else ["NOT NULL".toList]) ++
        (if column.unique then ["UNIQUE".toList] else []))
    ((flags column).map Constraint.tokens) := by
  have hkey : Spells "PRIMARY KEY".toList Constraint.primaryKey.tokens :=
    (spells_keyword "KEY" rfl).phrase ["PRIMARY"] rfl
  have hnull : Spells "NOT NULL".toList Constraint.notNull.tokens :=
    (spells_keyword "NULL" rfl).phrase ["NOT"] rfl
  have hunique : Spells "UNIQUE".toList Constraint.unique.tokens := spells_keyword "UNIQUE" rfl
  unfold flags
  split
  · exact .cons hkey .nil
  · rw [List.map_append]
    refine List.rel_append ?_ ?_
    · split
      · exact .nil
      · exact .cons hnull .nil
    · split
      · exact .cons hunique .nil
      · exact .nil

theorem plain_countedType (dialect : Dialect) : (countedType dialect).1.Plain := by
  cases dialect <;> constructor <;> simp [countedType, constraintWords]

/-- What a definition says of the default of a column. -/
def defaultParts (dialect : Dialect) : Option Value → List (List Char)
  | some value => ["DEFAULT ".toList ++ dialect.literal value]
  | none => []

/-- The defaults of a column, as many as it has. -/
theorem exists_defaults (dialect : Dialect) {default : Option Value}
    (h : ∀ value ∈ default, HasLiteral value) :
    ∃ literals : List Literal, List.Forall₂ (Literal.Denotes dialect) literals default.toList ∧
      List.Forall₂ Spells (defaultParts dialect default)
        ((literals.map Constraint.default).map Constraint.tokens) := by
  cases default with
  | none => exact ⟨[], .nil, .nil⟩
  | some value =>
      obtain ⟨literal, hdenotes, hspells⟩ := exists_literal dialect (h value rfl)
      exact ⟨[literal], .cons hdenotes .nil, .cons (hspells.phrase ["DEFAULT"] rfl) .nil⟩

/-- The definition of a column in the text says what the column is. -/
theorem exists_column (dialect : Dialect) {column : Column}
    (h : ∀ value ∈ column.default, HasLiteral value) :
    ∃ definition : ColumnDefinition, definition.Defines dialect column ∧
      definition.type.Plain ∧ Spells (column.definition dialect) definition.tokens := by
  have hname := spells_name column.name
  unfold ColumnDefinition.Defines Column.definition
  by_cases hcounted : column.counted = true
  · refine ⟨⟨column.name, (countedType dialect).1, (countedType dialect).2⟩, ?_,
      plain_countedType dialect, ?_⟩
    · exact ⟨rfl, by rw [if_pos hcounted]⟩
    · rw [if_pos hcounted]
      exact hname.append_blank (spells_counted dialect)
  · obtain ⟨literals, hdenotes, hdefaults⟩ := exists_defaults dialect h
    refine ⟨⟨column.name, typeName dialect column.type, flags column ++ literals.map .default⟩, ?_,
      plain_typeName dialect column.type, ?_⟩
    · refine ⟨rfl, ?_⟩
      rw [if_neg hcounted]
      exact ⟨typeName_text dialect column.type, literals, rfl, hdenotes⟩
    · rw [if_neg hcounted]
      have htype := spells_type (isKeyword_typeName dialect column.type)
      rw [typeName_text] at htype
      have hconstraints : List.Forall₂ Spells (_ ++ _) (_ ++ _) :=
        List.rel_append (spells_flags column) hdefaults
      rw [← List.map_append] at hconstraints
      exact spells_joined (.cons hname (.cons htype hconstraints))

/-! ### Statements -/

/-- A list in parentheses. -/
theorem spells_list {parts : List (List Char)} {read : List (List Token)}
    (h : List.Forall₂ Spells parts read) :
    Spells ('(' :: (joined ", " parts ++ [')'])) (listTokens read) := by
  have hclosing : Spells [')'] [.mark ')'] := spells_nil.mark rfl
  have hjoined : Spells (joined ", " parts) ([Token.mark ','].intercalate read) := by
    induction h with
    | nil => exact spells_nil
    | @cons part tokens parts read hpart hrest ih =>
        cases hrest with
        | nil =>
            show Spells ([',', ' '].intercalate [part]) _
            rw [List.intercalate_singleton, List.intercalate_singleton]
            exact hpart
        | @cons next more nexts mores hnext hmore =>
            show Spells ([',', ' '].intercalate (part :: next :: nexts)) _
            rw [List.intercalate_cons_cons, List.intercalate_cons_cons, List.append_assoc,
              List.append_assoc]
            exact hpart.append (ih.blank.mark rfl) fun rest _ => apart_cons (.inr (.inl rfl)) _
  exact (hjoined.append hclosing fun rest _ => apart_cons (.inr (.inr (.inr rfl))) rest).mark rfl

theorem spells_names (names : List String) :
    List.Forall₂ Spells (names.map quotedName) (names.map fun name => [.name name]) := by
  rw [List.forall₂_map_left_iff, List.forall₂_map_right_iff, List.forall₂_same]
  exact fun name _ => spells_name name

/-- Whether a definition says what a statement says: the same change to the same table, columns and
indexes, in the same order. -/
def Definition.Says (dialect : Dialect) : Definition → Statement → Prop
  | createTable table ifMissing definitions, .createTable table' columns ifMissing' =>
    table = table' ∧ ifMissing = ifMissing' ∧
      List.Forall₂ (ColumnDefinition.Defines dialect) definitions columns
  | dropTable table, .dropTable table' => table = table'
  | renameTable table newName, .renameTable table' newName' => table = table' ∧ newName = newName'
  | addColumn table definition, .addColumn table' column =>
    table = table' ∧ definition.Defines dialect column
  | dropColumn table column, .dropColumn table' column' => table = table' ∧ column = column'
  | setNotNull table column, .setNotNull table' column' => table = table' ∧ column = column'
  | createIndex index table columns, .createIndex index' table' columns' =>
    index = index' ∧ table = table' ∧ columns = columns'
  | dropIndex index, .dropIndex index' => index = index'
  | _, _ => False

end Sql

namespace Statement

open Sql

/-- Whether a statement changes the schema, with defaults that have literals. -/
def ChangesSchema : Statement → Prop
  | createTable _ columns _ => ∀ column ∈ columns, ∀ value ∈ column.default, HasLiteral value
  | addColumn _ column => ∀ value ∈ column.default, HasLiteral value
  | dropTable _ | renameTable .. | dropColumn .. | setNotNull .. => True
  | createIndex .. | dropIndex _ => True
  | _ => False

/-- The columns of a table, one definition for each. -/
theorem exists_columns (dialect : Dialect) {columns : List Column}
    (h : ∀ column ∈ columns, ∀ value ∈ column.default, HasLiteral value) :
    ∃ definitions : List ColumnDefinition,
      List.Forall₂ (ColumnDefinition.Defines dialect) definitions columns ∧
      (∀ definition ∈ definitions, definition.type.Plain) ∧
      List.Forall₂ Spells (columns.map (·.definition dialect))
        (definitions.map ColumnDefinition.tokens) := by
  induction columns with
  | nil => exact ⟨[], .nil, List.forall_mem_nil _, .nil⟩
  | cons column rest ih =>
      obtain ⟨hcolumn, hrest⟩ := List.forall_mem_cons.mp h
      obtain ⟨definition, hdefines, hplain, hspells⟩ := exists_column dialect hcolumn
      obtain ⟨definitions, hall, hplains, hspelled⟩ := ih hrest
      exact ⟨definition :: definitions, .cons hdefines hall,
        List.forall_mem_cons.mpr ⟨hplain, hplains⟩, .cons hspells hspelled⟩

/-- The text of a schema change spells a definition that says the same. -/
theorem exists_definition (dialect : Dialect) {statement : Statement}
    (h : statement.ChangesSchema) :
    ∃ definition : Definition, definition.Says dialect statement ∧ definition.Plain ∧
      Spells (statement.chars dialect) definition.tokens := by
  cases statement with
  | createTable table columns ifMissing =>
      obtain ⟨definitions, hdefines, hplain, hspells⟩ := exists_columns dialect h
      refine ⟨.createTable table ifMissing definitions, ⟨rfl, rfl, hdefines⟩, hplain, ?_⟩
      have hrest := (spells_name table).append_blank (spells_list hspells)
      show Spells ("CREATE TABLE ".toList ++ (if ifMissing then "IF NOT EXISTS ".toList else []) ++
        quotedName table ++ " (".toList ++ joined ", " (columns.map (·.definition dialect)) ++
        [')']) _
      simp only [List.append_assoc]
      cases ifMissing with
      | true => exact hrest.phrase ["CREATE", "TABLE", "IF", "NOT", "EXISTS"] rfl
      | false => exact hrest.phrase ["CREATE", "TABLE"] rfl
  | dropTable table =>
      exact ⟨.dropTable table, rfl, trivial, (spells_name table).phrase ["DROP", "TABLE"] rfl⟩
  | renameTable table newName =>
      refine ⟨.renameTable table newName, ⟨rfl, rfl⟩, trivial, ?_⟩
      have hnew := (spells_name newName).phrase ["RENAME", "TO"] rfl
      show Spells ("ALTER TABLE ".toList ++ quotedName table ++ " RENAME TO ".toList ++
        quotedName newName) _
      simp only [List.append_assoc]
      exact ((spells_name table).append_blank hnew).phrase ["ALTER", "TABLE"] rfl
  | addColumn table column =>
      obtain ⟨definition, hdefines, hplain, hspells⟩ := exists_column dialect h
      refine ⟨.addColumn table definition, ⟨rfl, hdefines⟩, hplain, ?_⟩
      have hcolumn := hspells.phrase ["ADD", "COLUMN"] rfl
      show Spells ("ALTER TABLE ".toList ++ quotedName table ++ " ADD COLUMN ".toList ++
        column.definition dialect) _
      simp only [List.append_assoc]
      exact ((spells_name table).append_blank hcolumn).phrase ["ALTER", "TABLE"] rfl
  | dropColumn table column =>
      refine ⟨.dropColumn table column, ⟨rfl, rfl⟩, trivial, ?_⟩
      have hcolumn := (spells_name column).phrase ["DROP", "COLUMN"] rfl
      show Spells ("ALTER TABLE ".toList ++ quotedName table ++ " DROP COLUMN ".toList ++
        quotedName column) _
      simp only [List.append_assoc]
      exact ((spells_name table).append_blank hcolumn).phrase ["ALTER", "TABLE"] rfl
  | setNotNull table column =>
      refine ⟨.setNotNull table column, ⟨rfl, rfl⟩, trivial, ?_⟩
      have hset := (spells_keyword "NULL" rfl).phrase ["SET", "NOT"] rfl
      have hcolumn := ((spells_name column).append_blank hset).phrase ["ALTER", "COLUMN"] rfl
      show Spells ("ALTER TABLE ".toList ++ quotedName table ++ " ALTER COLUMN ".toList ++
        quotedName column ++ " SET NOT NULL".toList) _
      simp only [List.append_assoc]
      exact ((spells_name table).append_blank hcolumn).phrase ["ALTER", "TABLE"] rfl
  | createIndex index table columns =>
      refine ⟨.createIndex index table columns, ⟨rfl, rfl, rfl⟩, trivial, ?_⟩
      have hlist := (spells_name table).append_blank (spells_list (spells_names columns))
      have htable := hlist.phrase ["ON"] rfl
      show Spells ("CREATE INDEX ".toList ++ quotedName index ++ " ON ".toList ++
        quotedName table ++ " (".toList ++ nameList columns ++ [')']) _
      simp only [List.append_assoc]
      exact ((spells_name index).append_blank htable).phrase ["CREATE", "INDEX"] rfl
  | dropIndex index =>
      exact ⟨.dropIndex index, rfl, trivial, (spells_name index).phrase ["DROP", "INDEX"] rfl⟩
  | _ => cases h

/-- The text of a schema change is read as exactly one statement, and it says what the change says:
no name and no default changes its structure. -/
theorem read_schema_text (dialect : Dialect) {statement : Statement} (h : statement.ChangesSchema) :
    ∃ definition : Definition, Sql.read? (statement.text dialect) = some definition ∧
      definition.Says dialect statement := by
  obtain ⟨definition, hsays, hplain, hspells⟩ := exists_definition dialect h
  refine ⟨definition, ?_, hsays⟩
  rw [Sql.read?, Statement.text, String.toList_ofList, hspells.scan?_eq, Option.bind_some]
  exact definition.definition?_tokens hplain

/-- A text of two statements is not read. -/
example : Sql.read? "DROP TABLE \"a\"; DROP TABLE \"b\"" = none := by cbv

theorem tenth_lt_ordinalLimit : 4591870180066957722 < Binary64.ordinalLimit := by decide

/-- A table whose names and defaults look like the rest of a statement. -/
def hostileTable : Statement :=
  .createTable "a\" (\"b\" TEXT); --" [
    { name := "id", type := .integer, counted := true, key := true, null := false, unique := false,
      default := none },
    { name := "\", ", type := .varchar 80, counted := false, key := false, null := false,
      unique := true, default := some (.text "'); DROP TABLE \"a\"; --") },
    { name := "", type := .boolean, counted := false, key := false, null := true, unique := false,
      default := some (.bool true) },
    { name := "NOT NULL", type := .double, counted := false, key := true, null := false,
      unique := false,
      default := some (.float (.finite true 4591870180066957722 tenth_lt_ordinalLimit)) }] true

/-- A table whose names hold quotes, blanks and keywords is read as it was written, in both
dialects. -/
theorem hostileTable_is_read : hostileTable.ChangesSchema ∧
    (∃ definition : Definition, Sql.read? (hostileTable.text .sqlite) = some definition ∧
      definition.Says .sqlite hostileTable) ∧
    ∃ definition : Definition, Sql.read? (hostileTable.text .postgres) = some definition ∧
      definition.Says .postgres hostileTable := by
  have hchanges : hostileTable.ChangesSchema := by
    simp [ChangesSchema, hostileTable, HasLiteral, Binary64.isFinite]
  exact ⟨hchanges, read_schema_text .sqlite hchanges, read_schema_text .postgres hchanges⟩

end Statement

end SchemaHistory
