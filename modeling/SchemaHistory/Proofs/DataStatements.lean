import SchemaHistory.Backend.Journal
import SchemaHistory.Backend.Rows
import SchemaHistory.Proofs.CompiledConditions
import SchemaHistory.Proofs.RoundTrip

/-!
# What the statements on rows bind

A statement that adds, changes, removes or finds rows has one placeholder for each of its arguments,
and they are numbered from 1 on, through its condition. `Statement.Lists` and `Statement.Binds` say
to which column each of them belongs, as read from the text. An action on rows carries out one such
statement, or none at all (`Backend.row_statements`).
-/

namespace SchemaHistory

namespace Lexeme

variable {cs ds tail : List Char} {ls parts : List Lexeme} {lexeme : Lexeme}
  {bound tested : List Use}

/-! ### Lists -/

theorem binds_of_plain (h : ∀ lexeme ∈ ls, isPlain lexeme = true) : Binds ls [] := by
  induction ls with
  | nil => exact binds_nil
  | cons lexeme ls ih =>
      obtain ⟨hfirst, hrest⟩ := List.forall_mem_cons.mp h
      exact (binds_singleton hfirst).append (ih hrest)

theorem mem_commas (h : lexeme ∈ parts.intersperse [',']) : lexeme ∈ parts ∨ lexeme = [','] := by
  induction parts with
  | nil => exact .inl h
  | cons part rest ih =>
      cases rest with
      | nil => exact .inl h
      | cons next more =>
          rw [List.intersperse_cons_cons, List.mem_cons, List.mem_cons] at h
          rcases h with rfl | rfl | h
          · exact .inl List.mem_cons_self
          · exact .inr rfl
          · exact (ih h).imp_left (List.mem_cons_of_mem part)

theorem filter_commas {keeps : Lexeme → Bool} (hparts : ∀ part ∈ parts, keeps part = true)
    (hcomma : keeps [','] = false) : (parts.intersperse [',']).filter keeps = parts := by
  induction parts with
  | nil => rfl
  | cons part rest ih =>
      obtain ⟨hpart, hrest⟩ := List.forall_mem_cons.mp hparts
      cases rest with
      | nil => exact List.filter_cons_of_pos hpart
      | cons next more =>
          rw [List.intersperse_cons_cons, List.filter_cons_of_pos hpart,
            List.filter_cons_of_neg (by simp [hcomma]), ih hrest]

/-- Lexemes with commas between them. -/
theorem spells_commas (h : ∀ part ∈ parts, Spells part [part]) :
    Spells (joined ", " parts) (parts.intersperse [',']) := by
  induction parts with
  | nil => exact spells_nil
  | cons part rest ih =>
      obtain ⟨hpart, hrest⟩ := List.forall_mem_cons.mp h
      cases rest with
      | nil =>
          rw [joined, List.intercalate_singleton]
          exact hpart
      | cons next more =>
          rw [joined, List.intercalate_cons_cons, List.append_assoc, List.intersperse_cons_cons]
          exact hpart.append ((ih hrest).blank.mark (.inr (.inr rfl)))
            fun rest _ => apart_cons (.inr (.inl rfl)) _

theorem Written.append_nil (h : Written cs bound) : Written (cs ++ []) bound := by
  rw [List.append_nil]
  exact h

/-- Two clauses with a comma between them bind what either binds. -/
theorem Written.comma (h : Written cs bound) (h' : Written ds tested) :
    Written (cs ++ (", ".toList ++ ds)) (bound ++ tested) := by
  obtain ⟨ls, hspells, hbinds⟩ := h
  obtain ⟨ms, hspells', hbinds'⟩ := h'
  have hcomma : Binds [[',']] [] := binds_singleton rfl
  exact ⟨_, hspells.append (hspells'.blank.mark (.inr (.inr rfl)))
    fun rest _ => apart_cons (.inr (.inl rfl)) _, hbinds.append (hcomma.append hbinds')⟩

theorem spells_nameList (names : List String) :
    Spells (Statement.nameList names) ((names.map quotedName).intersperse [',']) := by
  refine spells_commas fun part hpart => ?_
  obtain ⟨name, -, rfl⟩ := List.mem_map.mp hpart
  exact spells_name name

theorem isPlain_of_mem_names {names : List String}
    (h : lexeme ∈ (names.map quotedName).intersperse [',']) : isPlain lexeme = true := by
  rcases mem_commas h with hname | rfl
  · obtain ⟨name, -, rfl⟩ := List.mem_map.mp hname
    exact isPlain_name name
  · rfl

/-- Names bind nothing. -/
theorem written_nameList (names : List String) : Written (Statement.nameList names) [] :=
  ⟨_, spells_nameList names, binds_of_plain fun _ => isPlain_of_mem_names⟩

/-! ### Clauses -/

def beforeWhere (cs : List Char) : List Lexeme := (lexemes cs).takeWhile (· ≠ whereWord)

def fromWhere (cs : List Char) : List Lexeme := (lexemes cs).dropWhile (· ≠ whereWord)

/-- The placeholders of a statement, those before its condition and those in it. -/
structure Clauses (cs : List Char) (bound tested : List Use) : Prop where
  before : usesIn (beforeWhere cs) = bound
  condition : usesIn (fromWhere cs) = tested
  placeholders : placeholders cs = (bound ++ tested).map (·.placeholder)

theorem ne_whereWord_of_binds (h : Binds ls bound) :
    ∀ lexeme ∈ ls, decide (lexeme ≠ whereWord) = true := by
  intro lexeme hlexeme
  rw [decide_eq_true_eq]
  rintro rfl
  exact h.plain hlexeme

/-- A statement without a condition. -/
theorem Written.clauses (h : Written cs bound) : Clauses cs bound [] := by
  obtain ⟨ls, hspells, hbinds⟩ := h
  have hplain := ne_whereWord_of_binds hbinds
  constructor
  · rw [beforeWhere, hspells.lexemes_eq, List.takeWhile_eq_self_iff.mpr hplain, hbinds.uses]
  · rw [fromWhere, hspells.lexemes_eq, List.dropWhile_eq_nil_iff.mpr hplain]
    rfl
  · rw [Lexeme.placeholders, hspells.lexemes_eq, hbinds.placeholders, List.append_nil]

/-- A statement with a condition. -/
theorem Written.where (h : Written cs bound) (h' : Written ds tested) :
    Clauses (cs ++ " WHERE ".toList ++ ds) bound tested := by
  obtain ⟨ls, hspells, hbinds⟩ := h
  obtain ⟨ms, hspells', hbinds'⟩ := h'
  have hword : Spells whereWord [whereWord] := spells_keyword "WHERE" rfl
  have hlexemes : lexemes (cs ++ " WHERE ".toList ++ ds) = ls ++ whereWord :: ms := by
    rw [List.append_assoc]
    exact (hspells.append_blank (hword.append_blank hspells')).lexemes_eq
  have hplain := ne_whereWord_of_binds hbinds
  have hstops : ¬decide (whereWord ≠ whereWord) = true := by simp
  have hsplit : usesIn ([whereWord] ++ ms) = usesIn [whereWord] ++ usesIn ms :=
    usesIn_append hbinds'.first
  constructor
  · rw [beforeWhere, hlexemes, List.takeWhile_append_of_pos hplain, List.takeWhile_cons,
      if_neg hstops,
      List.append_nil, hbinds.uses]
  · rw [fromWhere, hlexemes, List.dropWhile_append_of_pos hplain, List.dropWhile_cons,
      if_neg hstops]
    exact hsplit.trans hbinds'.uses
  · have hnone : isPlaceholder whereWord = false := rfl
    rw [Lexeme.placeholders, hlexemes, List.filter_append,
      List.filter_cons_of_neg (by simp [hnone]),
      hbinds.placeholders, hbinds'.placeholders, List.map_append]

/-- A statement that is restricted to the rows under a condition, with whatever stands behind it. -/
theorem Written.restricted (h : Written cs bound) (dialect : Dialect) (start : Nat)
    (condition : Condition Test)
    (htail : ∀ {cs bound}, Written cs bound → Written (cs ++ tail) bound) :
    Clauses (cs ++ condition.whereText dialect start ++ tail) bound
      (Condition.bindings dialect start condition.tests) := by
  have hcondition := Condition.written_text dialect start condition
  cases htext : condition.text dialect start with
  | nil =>
      -- without a text there is no test either
      have hwhere : condition.whereText dialect start = [] := by rw [Condition.whereText, htext]
      rw [htext] at hcondition
      rw [hwhere, List.append_nil, ← hcondition.uses_eq]
      exact (htail h).clauses
  | cons c text =>
      have hwhere : condition.whereText dialect start = " WHERE ".toList ++ (c :: text) := by
        rw [Condition.whereText, htext]
      rw [htext] at hcondition
      rw [hwhere, ← List.append_assoc, List.append_assoc]
      exact h.where (htail hcondition)

end Lexeme

/-! ### Statements -/

namespace Statement

open Lexeme

variable {dialect : Dialect} {table : String} {assigned : List (String × Value)} {tests : List Test}

/-- The placeholders for values that are assigned to columns. -/
def assignmentUses (dialect : Dialect) (start : Nat) (columns : List String) : List Use :=
  (columns.zipIdx start).map fun (column, number) =>
    ⟨quotedName column, ['='], dialect.placeholder number⟩

/-- The names in the first parentheses of a statement. -/
def listed (ls : List Lexeme) : List Lexeme :=
  ((ls.dropWhile (· ≠ ['('])).takeWhile (· ≠ [')'])).filter (·.head? = some '"')

/-- The arguments of a statement are values for columns that it lists, one for each. -/
structure Lists (dialect : Dialect) (statement : Statement) (assigned : List (String × Value)) :
    Prop where
  arguments : statement.arguments = assigned.map (·.2)
  placeholders : Lexeme.placeholders (statement.chars dialect)
    = (List.range' 1 assigned.length).map dialect.placeholder
  columns : listed (lexemes (statement.chars dialect)) = assigned.map (quotedName ·.1)

/-- The arguments of a statement are values that it assigns to columns, and then the values of the
tests in its condition. The placeholders are numbered through, each behind the column that it
belongs to. -/
structure Binds (dialect : Dialect) (statement : Statement) (assigned : List (String × Value))
    (tests : List Test) : Prop where
  arguments : statement.arguments = assigned.map (·.2) ++ tests.map (·.value)
  placeholders : Lexeme.placeholders (statement.chars dialect)
    = (List.range' 1 (assigned.length + tests.length)).map dialect.placeholder
  before : usesIn (beforeWhere (statement.chars dialect))
    = assignmentUses dialect 1 (assigned.map (·.1))
  condition : usesIn (fromWhere (statement.chars dialect))
    = Condition.bindings dialect (assigned.length + 1) tests

/-- Assignments use placeholders that are numbered one after the other. -/
theorem placeholders_assignmentUses (dialect : Dialect) (start : Nat) (columns : List String) :
    (assignmentUses dialect start columns).map (·.placeholder)
      = (List.range' start columns.length).map dialect.placeholder := by
  rw [← List.zipIdx_map_snd, assignmentUses, List.map_map, List.map_map]
  rfl

/-- The assignments and the tests of a statement bind its arguments, in this order. -/
theorem binds_of_clauses {statement : Statement}
    (harguments : statement.arguments = assigned.map (·.2) ++ tests.map (·.value))
    (h : Clauses (statement.chars dialect) (assignmentUses dialect 1 (assigned.map (·.1)))
      (Condition.bindings dialect (assigned.length + 1) tests)) :
    statement.Binds dialect assigned tests where
  arguments := harguments
  placeholders := by
    rw [h.placeholders, List.map_append, placeholders_assignmentUses,
      Condition.placeholders_bindings,
      ← List.map_append, List.length_map, Nat.add_comm assigned.length 1, List.range'_append_1]
  before := h.before
  condition := h.condition

theorem spells_insert (dialect : Dialect) (table : String) (assigned : List (String × Value)) :
    Spells ((insert table assigned).chars dialect)
      ("INSERT".toList :: "INTO".toList :: quotedName table :: ['('] ::
        (((assigned.map (·.1)).map quotedName).intersperse [','] ++ [')'] ::
          "VALUES".toList :: ['('] ::
          ((placeholders dialect 1 assigned.length).intersperse [','] ++ [[')']]))) := by
  have hplaceholders : Spells (joined ", " (placeholders dialect 1 assigned.length))
      ((placeholders dialect 1 assigned.length).intersperse [',']) := by
    refine spells_commas fun part hpart => ?_
    obtain ⟨number, -, rfl⟩ := List.mem_map.mp hpart
    exact spells_placeholder dialect number
  have hclosing : Spells [')'] [[')']] := spells_nil.mark (.inr (.inl rfl))
  have hapart : ∀ cs rest : List Char, Apart (')' :: cs ++ rest) :=
    fun cs rest => apart_cons (.inr (.inr rfl)) (cs ++ rest)
  have hrow := (hplaceholders.append hclosing fun rest _ => hapart [] rest).mark (.inl rfl)
  have hlist := (spells_nameList (assigned.map (·.1))).append
    (((spells_keyword "VALUES" rfl).append_blank hrow).blank.mark (.inr (.inl rfl))) fun rest _ =>
    hapart _ rest
  have htext := (spells_keyword "INSERT" rfl).append_blank
    ((spells_keyword "INTO" rfl).append_blank
      ((spells_name table).append_blank (hlist.mark (.inl rfl))))
  show Spells ("INSERT INTO ".toList ++ quotedName table ++ " (".toList ++
    nameList (assigned.map (·.1)) ++ ") VALUES (".toList ++
      joined ", " (placeholders dialect 1 assigned.length) ++ [')']) _
  simp only [List.append_assoc]
  exact htext

/-- The columns of a new row stand in one list, the placeholders of their values in the other. -/
theorem insert_lists (dialect : Dialect) (table : String) (assigned : List (String × Value)) :
    (insert table assigned).Lists dialect assigned := by
  have hlexemes := (spells_insert dialect table assigned).lexemes_eq
  have hnames : ∀ lexeme ∈ ((assigned.map (·.1)).map quotedName).intersperse [','],
      isPlain lexeme = true := fun _ => isPlain_of_mem_names
  constructor
  · rfl
  · have hhead := (binds_of_plain hnames).placeholders
    have hrow : ((placeholders dialect 1 assigned.length).intersperse [',']).filter isPlaceholder
        = placeholders dialect 1 assigned.length := by
      refine filter_commas (fun part hpart => ?_) rfl
      obtain ⟨number, -, rfl⟩ := List.mem_map.mp hpart
      exact isPlaceholder_placeholder dialect number
    have hplain : ∀ {lexeme : Lexeme} {ls : List Lexeme}, isPlain lexeme = true →
        (lexeme :: ls).filter isPlaceholder = ls.filter isPlaceholder := by
      intro lexeme ls h
      exact List.filter_cons_of_neg (by simp [isPlaceholder_of_isPlain h])
    rw [Lexeme.placeholders, hlexemes, hplain rfl, hplain rfl, hplain rfl, hplain rfl,
      List.filter_append, hhead, hplain rfl, hplain rfl, hplain rfl, List.filter_append, hrow]
    exact List.append_nil _
  · have hcolumns : (((assigned.map (·.1)).map quotedName).intersperse [',']).filter
        (fun lexeme => decide (lexeme.head? = some '"')) = (assigned.map (·.1)).map quotedName := by
      refine filter_commas (fun part hpart => ?_) rfl
      obtain ⟨name, -, rfl⟩ := List.mem_map.mp hpart
      rfl
    have hinside : ∀ lexeme ∈ ((assigned.map (·.1)).map quotedName).intersperse [','],
        decide (lexeme ≠ [')']) = true := by
      intro lexeme hlexeme
      rcases mem_commas hlexeme with hname | rfl
      · obtain ⟨name, -, rfl⟩ := List.mem_map.mp hname
        rfl
      · rfl
    have hlisted : ∀ rest, listed ("INSERT".toList :: "INTO".toList :: quotedName table ::
      ['('] :: rest)
        = (rest.takeWhile (· ≠ [')'])).filter (·.head? = some '"') := fun _ => rfl
    have hcloses : ∀ rest : List Lexeme, ([')'] :: rest).takeWhile (· ≠ [')']) = [] := fun _ => rfl
    rw [hlexemes, hlisted, List.takeWhile_append_of_pos hinside, hcloses, List.append_nil, hcolumns,
      List.map_map]
    rfl

theorem written_assignments (dialect : Dialect) (start : Nat) (columns : List String) :
    List.Forall₂ Written (assignments dialect start columns)
      ((assignmentUses dialect start columns).map ([·])) := by
  induction columns generalizing start with
  | nil => exact .nil
  | cons column columns ih =>
      refine .cons ⟨_, ?_, binds_use column rfl dialect start⟩ (ih (start + 1))
      have hequals : Spells ['='] [['=']] := spells_operator .sqlite .equal
      have htext := (spells_name column).append_blank
        (hequals.append_blank (spells_placeholder dialect start))
      rw [List.append_assoc]
      exact htext

/-- An update binds the values it sets first and those it tests afterwards. -/
theorem update_binds (dialect : Dialect) (table : String) (assigned : List (String × Value))
    (condition : Condition Test) :
    (update table assigned condition).Binds dialect assigned condition.tests := by
  refine binds_of_clauses rfl ?_
  have hjoined := written_joined ", " (fun h h' => h.comma h')
    (written_assignments dialect 1 (assigned.map (·.1)))
  rw [← List.flatMap_def, List.flatMap_singleton'] at hjoined
  have hhead := ((written_name table).append_blank (hjoined.word "SET" rfl)).word "UPDATE" rfl
  have hclauses := hhead.restricted dialect (assigned.length + 1) condition fun h => h.append_nil
  rw [List.append_nil] at hclauses
  show Clauses ("UPDATE ".toList ++ quotedName table ++ " SET ".toList ++
    joined ", " (assignments dialect 1 (assigned.map (·.1))) ++
    condition.whereText dialect (assigned.length + 1)) _ _
  simp only [List.append_assoc, List.cons_append] at hclauses ⊢
  exact hclauses

theorem delete_binds (dialect : Dialect) (table : String) (condition : Condition Test) :
    (delete table condition).Binds dialect [] condition.tests := by
  refine binds_of_clauses rfl ?_
  have hhead := ((written_name table).word "FROM" rfl).word "DELETE" rfl
  have hclauses := hhead.restricted dialect 1 condition fun h => h.append_nil
  rw [List.append_nil] at hclauses
  exact hclauses

theorem select_binds (dialect : Dialect) (table : String) (columns : List String)
    (condition : Condition Test) (orderBy : String) :
    (select table columns condition orderBy).Binds dialect [] condition.tests := by
  refine binds_of_clauses rfl ?_
  have hhead := ((written_nameList columns).append_blank
    ((written_name table).word "FROM" rfl)).word "SELECT" rfl
  have horder := ((written_name orderBy).word "BY" rfl).word "ORDER" rfl
  have hclauses := hhead.restricted dialect 1 condition fun h => by
    have htail := h.append_blank horder
    rw [List.append_nil] at htail
    exact htail
  show Clauses ("SELECT ".toList ++ nameList columns ++ " FROM ".toList ++ quotedName table ++
    condition.whereText dialect 1 ++ " ORDER BY ".toList ++ quotedName orderBy) _ _
  simp only [List.append_assoc, List.cons_append] at hclauses ⊢
  exact hclauses

end Statement

/-! ### Actions -/

/-- The values that a row gives to some fields, by column, in the order of the fields. -/
def Fields.given (values : Row) (fields : Fields) : List (String × Value) :=
  fields.filterMap fun (name, field) =>
    (values.get? name).map fun value => (field.columnName name, value)

namespace Backend

variable {σ α : Type} (backend : Backend σ) (model : Model) (values : Row)
  (condition : Condition Lookup)

/-- All that an action on the rows under a condition does. It carries out one statement, in which
the given values and those of the condition are in their places; or the condition cannot be
resolved, and the action fails with the same error. -/
def OneStatement (assigned : List (String × Value)) (carryOut : Statement → Session σ α)
    (action : Session σ α) : Prop :=
  (∃ tests statement, List.Forall₂ (Lookup.Denotes model) condition.tests tests ∧
    statement.Binds backend.dialect assigned tests ∧ action = carryOut statement) ∨
  ∃ e, condition.resolve model = .error e ∧ action = throw e

variable {backend model values condition}

/-- An action that resolves its condition first carries out one statement or none. -/
theorem OneStatement.of_bind {assigned : List (String × Value)} {carryOut : Statement → Session σ α}
    {statement : Condition Test → Statement}
    (hbinds : ∀ resolved, (statement resolved).Binds backend.dialect assigned resolved.tests) :
    backend.OneStatement model condition assigned carryOut (do
      let resolved ← Session.ofExcept (condition.resolve model)
      carryOut (statement resolved)) := by
  cases hresolve : condition.resolve model with
  | error e => exact .inr ⟨e, hresolve, rfl⟩
  | ok resolved =>
      exact .inl ⟨resolved.tests, statement resolved, Condition.denotes_of_resolve hresolve,
        hbinds resolved, rfl⟩

/-- The key is left out of an update, and so is what has no value. -/
theorem updateValues_eq (model : Model) (values : Row) :
    updateValues model values = Fields.given values (model.fields.filter (·.1 ≠ model.key)) := by
  unfold updateValues Fields.given
  rw [List.filterMap_filter]
  congr 1
  funext entry
  by_cases hkey : entry.1 = model.key
  · simp [hkey]
  · simp [hkey]

variable (backend model values condition)

/-- An update of nothing asks the database for nothing. -/
theorem update_of_nothing
    (h : Fields.given values (model.fields.filter (·.1 ≠ model.key)) = []) :
    backend.update model values condition = pure 0 := by
  rw [← updateValues_eq] at h
  unfold update
  rw [h]

theorem update_oneStatement
    (h : Fields.given values (model.fields.filter (·.1 ≠ model.key)) ≠ []) :
    backend.OneStatement model condition
      (Fields.given values (model.fields.filter (·.1 ≠ model.key))) backend.execute
      (backend.update model values condition) := by
  rw [← updateValues_eq] at h ⊢
  unfold update
  cases hassigned : updateValues model values with
  | nil => exact absurd hassigned h
  | cons first rest =>
      exact OneStatement.of_bind fun resolved => Statement.update_binds _ _ _ resolved

theorem delete_oneStatement :
    backend.OneStatement model condition [] backend.execute (backend.delete model condition) :=
  OneStatement.of_bind fun resolved => Statement.delete_binds _ _ resolved

/-- Finding rows is one query, unless the key has no column. -/
theorem select_oneStatement :
    backend.OneStatement model condition []
        (fun statement => do return (← backend.query statement).map (Row.byField model.fields))
        (backend.select model condition) ∨
      ∃ e, model.column model.key = .error e ∧ backend.select model condition = throw e := by
  cases hkey : model.column model.key with
  | ok key =>
      have hselect : backend.select model condition = (do
          let resolved ← Session.ofExcept (condition.resolve model)
          return (← backend.query (.select model.table model.columns resolved key)).map
            (Row.byField model.fields)) := by
        unfold select
        rw [hkey]
        rfl
      rw [hselect]
      exact .inl (OneStatement.of_bind fun resolved => Statement.select_binds _ _ _ resolved key)
  | error e =>
      unfold select
      rw [hkey]
      cases hresolve : condition.resolve model with
      | error e' => exact .inl (.inr ⟨e', hresolve, rfl⟩)
      | ok resolved => exact .inr ⟨e, rfl, rfl⟩

/-- What the actions on the rows of a model do, with any values and under any condition. A new row
is one statement, with the values of all fields that have one. An update without a value for a field
other than the key does nothing and concerns no row; any other is one statement with these values
and those of the condition. To remove or to find rows is one statement with the values of the
condition; nothing is found without a field for the key. -/
theorem row_statements :
    (∃ statement : Statement, statement.Lists backend.dialect (Fields.given values model.fields) ∧
      backend.insert model values = backend.execute statement) ∧
    (∀ assigned, assigned = Fields.given values (model.fields.filter (·.1 ≠ model.key)) →
      (assigned = [] → backend.update model values condition = pure 0) ∧
      (assigned ≠ [] → backend.OneStatement model condition assigned backend.execute
        (backend.update model values condition))) ∧
    backend.OneStatement model condition [] backend.execute (backend.delete model condition) ∧
    (backend.OneStatement model condition []
        (fun statement => do return (← backend.query statement).map (Row.byField model.fields))
        (backend.select model condition) ∨
      ∃ e, model.column model.key = .error e ∧ backend.select model condition = throw e) := by
  refine ⟨⟨_, Statement.insert_lists _ _ _, rfl⟩, ?_, delete_oneStatement backend model condition,
    select_oneStatement backend model condition⟩
  rintro assigned rfl
  exact ⟨update_of_nothing backend model values condition,
    update_oneStatement backend model values condition⟩

/-- A database that writes down what it is asked to do. -/
def shelf : Backend Journal := Journal.backend .postgres Operation.noteMoment

/-- The key of a book is not changed, even if there is a value for it. -/
theorem titles_changed :
    (∃ tests, ∃ statement : Statement,
      statement.Binds .postgres [("the \"title\"", .text "Persuasion")] tests ∧
      shelf.update Condition.bookModel [("id", .int 9), ("title", .text "Persuasion")]
        Condition.bookCondition = shelf.execute statement) ∧
    shelf.update Condition.bookModel [("id", .int 9)] Condition.bookCondition = pure 0 := by
  constructor
  · obtain ⟨-, hupdate, -⟩ := row_statements shelf Condition.bookModel
      [("id", .int 9), ("title", .text "Persuasion")] Condition.bookCondition
    rcases (hupdate [("the \"title\"", .text "Persuasion")] rfl).2 (List.cons_ne_nil _ _) with
      ⟨tests, statement, -, hbinds, haction⟩ | ⟨e, hresolve, -⟩
    · exact ⟨tests, statement, hbinds, haction⟩
    · cases hresolve
  · obtain ⟨-, hupdate, -⟩ := row_statements shelf Condition.bookModel [("id", .int 9)]
      Condition.bookCondition
    exact (hupdate [] rfl).1 rfl

end Backend

end SchemaHistory
