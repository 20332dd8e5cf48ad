import SchemaHistory.Proofs.OperationEffects
import SchemaHistory.Proofs.PredicateMeaning

/-!
# The rows of tables

A `Database` is a catalog together with the rows of its tables. What a statement makes of the tables
is what it makes of the catalog, and `Database.rowsAfter` says what it makes of the rows: a column
that is added holds its default or null in the rows that are there, an update changes the rows in
which its condition is true, and rows are copied column by column. `Database.Follows` puts both
together. A database may refuse a statement for the sake of its rows; when it does so is left open.

The second half carries the plans of statements out on the rows: what adding, filling and dropping
columns and building a table anew make of the rows of the table, all others staying as they are.
-/

namespace SchemaHistory

/-- A row as a database keeps it: what it holds in each of its columns. -/
abbrev Record := String → Option Value

/-- What a column holds in rows that were there before it, and where nothing is inserted into it. -/
def Column.initial (column : Column) : Value := column.default.getD .null

namespace Record

def assign (values : List (String × Value)) (record : Record) : Record :=
  values.foldl (fun record entry => Function.update record entry.1 (some entry.2)) record

def without (columns : List String) (record : Record) : Record :=
  fun column => if column ∈ columns then none else record column

def only (columns : List String) (record : Record) : Record :=
  fun column => if column ∈ columns then record column else none

/-- The row that is made of a row by copying some columns into a table. -/
def copied (target : List Column) (columns : List String) (record : Record) : Record :=
  fun column => if column ∈ columns then record column
    else (target.find? fun other => other.name = column).map Column.initial

/-- The row has exactly the columns of a table. -/
def Fits (columns : List Column) (record : Record) : Prop :=
  ∀ column, record column ≠ none ↔ column ∈ columns.map (·.name)

variable {values : List (String × Value)} {record : Record} {column : String} {value : Value}
  {columns names : List String}

theorem assign_of_not_mem (h : column ∉ values.map (·.1)) :
    assign values record column = record column := by
  induction values generalizing record with
  | nil => rfl
  | cons entry rest ih =>
      rw [List.map_cons, List.mem_cons, not_or] at h
      rw [assign, List.foldl_cons, ← assign, ih h.2, Function.update_of_ne h.1]

/-- A column that is set has the value that it is set to. -/
theorem assign_of_mem (hnames : (values.map (·.1)).Nodup) (h : (column, value) ∈ values) :
    assign values record column = some value := by
  induction values generalizing record with
  | nil => cases h
  | cons entry rest ih =>
      obtain ⟨hnot, hrest⟩ := List.nodup_cons.mp hnames
      rw [assign, List.foldl_cons, ← assign]
      rcases List.mem_cons.mp h with rfl | h
      · rw [assign_of_not_mem hnot, Function.update_self]
      · exact ih hrest h

/-- A row has a column afterwards if it is set or was there. -/
theorem assign_ne_none_iff :
    assign values record column ≠ none ↔ column ∈ values.map (·.1) ∨ record column ≠ none := by
  induction values generalizing record with
  | nil => simp [assign]
  | cons entry rest ih =>
      rw [assign, List.foldl_cons, ← assign, ih, List.map_cons, List.mem_cons]
      by_cases h : column = entry.1
      · simp [h]
      · simp [h]

theorem without_cons :
    without names (Function.update record column none) = without (column :: names) record := by
  funext other
  by_cases h : other = column
  · subst h
    simp [without]
  · simp [without, h]

/-- What has only some columns keeps all it has. -/
theorem only_eq_self (h : ∀ column, record column ≠ none → column ∈ columns) :
    only columns record = record := by
  funext column
  unfold only
  split
  · rfl
  · next hnot => exact (not_not.mp (mt (h column) hnot)).symm

end Record

/-- Tables with their rows, and indexes. -/
structure Database where
  catalog : Catalog
  rows : String → List Record

namespace Database

def changeRows (db : Database) (table : String) (change : List Record → List Record) :
    String → List Record :=
  Function.update db.rows table (change (db.rows table))

section Statements

variable (compares : Comparison → Value → Value → Truth)

/-- Whether a condition is true in a row. -/
def selects (condition : Condition Test) (record : Record) : Bool :=
  condition.truth (Test.truth compares fun column => (record column).getD .null) = .yes

def rowsAfter (db : Database) : Statement → String → List Record
  | .createTable table .. =>
    match db.catalog.tables table with
    | some _ => db.rows
    | none => db.changeRows table fun _ => []
  | .dropTable table => db.changeRows table fun _ => []
  | .renameTable table newName =>
    Function.update (db.changeRows table fun _ => []) newName (db.rows table)
  | .addColumn table column =>
    db.changeRows table (List.map fun record =>
      Function.update record column.name (some column.initial))
  | .dropColumn table column =>
    db.changeRows table (List.map fun record => Function.update record column none)
  | .copyRows source target columns =>
    db.changeRows target fun records => records ++
      (db.rows source).map (Record.copied ((db.catalog.tables target).getD []) columns)
  | .update table values condition =>
    db.changeRows table (List.map fun record =>
      if selects compares condition record then record.assign values else record)
  | .delete table condition =>
    db.changeRows table (List.filter fun record => !selects compares condition record)
  | _ => db.rows

/-- What a statement makes of a database, if its catalog allows it. Single rows are not inserted
here. -/
def execute (db : Database) : Statement → Option Database
  | .insert .. => none
  | statement =>
    (db.catalog.execute statement).map fun catalog => ⟨catalog, db.rowsAfter compares statement⟩

/-- What a statement that is not refused does. A row that is inserted holds the values given, and in
other columns what the database puts there. -/
def Follows (statement : Statement) (db db' : Database) : Prop :=
  db.catalog.execute statement = some db'.catalog ∧
    match statement with
    | .insert table values => ∃ record : Record,
        record.Fits ((db.catalog.tables table).getD []) ∧
        (∀ entry ∈ values, record entry.1 = some entry.2) ∧
        db'.rows = db.changeRows table fun records => records ++ [record]
    | statement => db'.rows = db.rowsAfter compares statement

/-- Statements one after the other, none of them refused. -/
inductive Runs : List Statement → Database → Database → Prop where
  | nil (db : Database) : Runs [] db db
  | cons {statement : Statement} {rest : List Statement} {db between db' : Database} :
      Follows compares statement db between → Runs rest between db' →
      Runs (statement :: rest) db db'

end Statements

/-- Every index belongs to a table, the columns of a table have different names, and every row
belongs to a table and has its columns. -/
structure Sound (db : Database) : Prop where
  catalog : db.catalog.Sound
  columns : ∀ table columns, db.catalog.tables table = some columns →
    (columns.map (·.name)).Nodup
  missing : ∀ table, db.catalog.tables table = none → db.rows table = []
  fits : ∀ table columns, db.catalog.tables table = some columns →
    ∀ record ∈ db.rows table, record.Fits columns

end Database

/-- A backend whose state holds a database. A statement that it does not refuse does what it does to
the database. -/
def Backend.Keeps {σ : Type} (backend : Backend σ) (compares : Comparison → Value → Value → Truth)
    (contents : σ → Database) : Prop :=
  ∀ statement s count t, backend.execute statement s = .ok count t →
    Database.Follows compares statement (contents s) (contents t)

/-- The backend that has a database for its state and can do all but insert single rows. It refuses
what the catalog does not allow. -/
def Database.backend (compares : Comparison → Value → Value → Truth) (dialect : Dialect)
    (now : DateTime) : Backend Database where
  dialect
  now
  execute statement db :=
    let refusal : SchemaError := .refused dialect.name "not done" (statement.text dialect)
    match statement with
    | .insert .. => .error refusal db
    | statement => match db.catalog.execute statement with
      | some catalog => .ok 0 ⟨catalog, db.rowsAfter compares statement⟩
      | none => .error refusal db
  query _ := pure []
  begin := pure ()
  commit := pure ()
  rollback := pure ()

theorem Database.keeps_backend (compares : Comparison → Value → Value → Truth) (dialect : Dialect)
    (now : DateTime) : (Database.backend compares dialect now).Keeps compares id := by
  intro statement s count t h
  unfold Database.backend at h
  dsimp only at h
  split at h
  · cases h
  · next hinsert =>
      split at h
      · next catalog hcatalog =>
          cases h
          refine ⟨hcatalog, ?_⟩
          cases statement with
          | insert table values => exact absurd rfl (hinsert table values)
          | _ => rfl
      · cases h

namespace Database

open Backend

variable {compares : Comparison → Value → Value → Truth} {db between db' : Database}
  {first rest statements : List Statement} {statement : Statement} {table : String}
  {columns : List String} {model : Model}

theorem Runs.of_backend {σ : Type} {backend : Backend σ} {contents : σ → Database} {s t : σ}
    (hkeeps : backend.Keeps compares contents) (h : backend.Runs statements s t) :
    Runs compares statements (contents s) (contents t) := by
  induction h with
  | nil => exact .nil _
  | cons count hexecute _ ih => exact .cons (hkeeps _ _ _ _ hexecute) ih

/-- Running statements on rows executes them on the tables. -/
theorem Runs.executeAll (h : Runs compares statements db db') :
    db.catalog.executeAll statements = some db'.catalog := by
  induction h with
  | nil => rfl
  | cons hfollows _ ih =>
      rw [Catalog.executeAll_cons, hfollows.1]
      exact ih

theorem runs_cons : Runs compares (statement :: rest) db db' ↔
    ∃ between, Follows compares statement db between ∧ Runs compares rest between db' := by
  constructor
  · intro h
    cases h with
    | cons hfollows hrest => exact ⟨_, hfollows, hrest⟩
  · rintro ⟨between, hfollows, hrest⟩
    exact .cons hfollows hrest

theorem runs_append : Runs compares (first ++ rest) db db' ↔
    ∃ between, Runs compares first db between ∧ Runs compares rest between db' := by
  induction first generalizing db with
  | nil =>
      constructor
      · intro h
        exact ⟨db, .nil db, h⟩
      · rintro ⟨between, hnil, h⟩
        cases hnil
        exact h
  | cons statement first ih =>
      simp only [List.cons_append, runs_cons, ih]
      constructor
      · rintro ⟨b, hfollows, c, hfirst, hrest⟩
        exact ⟨c, ⟨b, hfollows, hfirst⟩, hrest⟩
      · rintro ⟨c, ⟨b, hfollows, hfirst⟩, hrest⟩
        exact ⟨b, hfollows, c, hfirst, hrest⟩

/-! ### Changing the rows of one table -/

theorem changeRows_id : db.changeRows table (List.map id) = db.rows := by
  rw [changeRows, List.map_id, Function.update_eq_self]

/-- Changing rows and then changing them again. -/
theorem changeRows_changeRows {f g : Record → Record}
    (h : between.rows = db.changeRows table (List.map f)) :
    between.changeRows table (List.map g) = db.changeRows table (List.map (g ∘ f)) := by
  rw [changeRows, h, changeRows, Function.update_self, Function.update_idem, List.map_map]
  rfl

/-- Statements each of which changes the rows of a table in the same manner, one after the other. -/
theorem Runs.rows_of_each {α : Type} {xs : List α} {f : α → Statement} {g : α → Record → Record}
    (table : String) (hstep : ∀ x db db', Follows compares (f x) db db' →
      db'.rows = db.changeRows table (List.map (g x)))
    (h : Runs compares (xs.map f) db db') :
    db'.rows = db.changeRows table (List.map fun record => xs.foldl (fun r x => g x r) record) := by
  induction xs generalizing db with
  | nil =>
      cases h
      exact changeRows_id.symm
  | cons x xs ih =>
      rw [List.map_cons, runs_cons] at h
      obtain ⟨between, hfollows, hrest⟩ := h
      rw [ih hrest, changeRows_changeRows (hstep x _ _ hfollows)]
      rfl

/-- Statements that leave rows alone. -/
theorem Runs.rows_eq (hstep : ∀ statement ∈ statements, ∀ db db',
    Follows compares statement db db' → db'.rows = db.rows) (h : Runs compares statements db db') :
    db'.rows = db.rows := by
  induction h with
  | nil => rfl
  | cons hfollows _ ih =>
      obtain ⟨hstatement, hrest⟩ := List.forall_mem_cons.mp hstep
      rw [ih hrest, hstatement _ _ hfollows]

/-! ### The plans -/

/-- Added columns hold their defaults in all rows. -/
theorem Runs.rows_additions {inPlace : Bool} {fields : Fields}
    (h : Runs compares (fields.map (addition inPlace table)) db db') :
    db'.rows = db.changeRows table (List.map (Record.assign (fields.map fun entry =>
      (entry.2.columnName entry.1, entry.2.default.getD .null)))) := by
  have hrows := h.rows_of_each table
    (g := fun entry record => Function.update record (entry.2.columnName entry.1)
      (some (entry.2.default.getD .null))) fun entry db db' hfollows => hfollows.2
  rw [hrows]
  congr 2
  funext record
  rw [Record.assign, List.foldl_map]

/-- Filling in sets the values in all rows. -/
theorem Runs.rows_filling {fill : Row} (h : Runs compares (filling model fill) db db') :
    db'.rows = db.changeRows model.table (List.map (Record.assign (updateValues model fill))) := by
  unfold filling at h
  split at h
  · next hnone =>
      cases h
      rw [hnone]
      exact changeRows_id.symm
  · obtain ⟨between, hfollows, hnil⟩ := runs_cons.mp h
    cases hnil
    -- the condition of the update is empty, so it is true in every row
    exact hfollows.2

/-- Making a column strict leaves the rows. -/
theorem Runs.rows_setNotNulls (h : Runs compares (columns.map (.setNotNull table)) db db') :
    db'.rows = db.rows := by
  refine h.rows_eq fun statement hstatement db db' hfollows => ?_
  obtain ⟨column, -, rfl⟩ := List.mem_map.mp hstatement
  exact hfollows.2

theorem Runs.rows_createIndexes {names : List String}
    (hindexes : names.mapM (indexStatement model) = .ok statements)
    (h : Runs compares statements db db') : db'.rows = db.rows := by
  refine h.rows_eq fun statement hstatement db db' hfollows => ?_
  obtain ⟨name, -, hname⟩ := Except.exists_of_mem_mapM hindexes hstatement
  obtain ⟨covered, -, rfl⟩ := Catalog.indexStatement_eq_ok hname
  exact hfollows.2

/-- Dropped columns are gone from all rows. -/
theorem Runs.rows_dropColumns (h : Runs compares (columns.map (.dropColumn table)) db db') :
    db'.rows = db.changeRows table (List.map (Record.without columns)) := by
  have hrows := h.rows_of_each table
    (g := fun column record => Function.update record column none)
    fun column db db' hfollows => hfollows.2
  rw [hrows]
  congr 2
  funext record
  clear h hrows
  induction columns generalizing record with
  | nil =>
      funext column
      simp [Record.without]
  | cons column columns ih => rw [List.foldl_cons, ih, Record.without_cons]

/-- Building the table of a model anew keeps the rows, with the columns of the model. -/
theorem Runs.rows_renewal (hsound : db.catalog.Sound)
    (htable : db.catalog.tables model.table ≠ none)
    (hempty : db.catalog.tables (shadowName model.table) = none →
      db.rows (shadowName model.table) = [])
    (hindexes : model.indexes.names.mapM (indexStatement model) = .ok statements)
    (h : Runs compares (renewal model model.columns statements) db db') :
    db'.rows = db.changeRows model.table (List.map (Record.only model.columns)) := by
  rw [renewal, runs_append] at h
  obtain ⟨renamed, h, hrest⟩ := h
  obtain ⟨created, hcreate, h⟩ := runs_cons.mp h
  obtain ⟨copied, hcopy, h⟩ := runs_cons.mp h
  obtain ⟨dropped, hdrop, h⟩ := runs_cons.mp h
  obtain ⟨final, hrename, hnil⟩ := runs_cons.mp h
  cases hnil
  rw [hrest.rows_createIndexes hindexes]
  -- the shadow is a table that was not there, so it starts without rows
  obtain ⟨-, hshadow, hcatalog⟩ := Catalog.execute_createTable hsound hcreate.1
  have hmissing : db.catalog.tables (shadowName model.table) = none := hshadow.table
  have hne : shadowName model.table ≠ model.table := fun heq => htable (heq ▸ hmissing)
  have hcreated : created.rows = db.rows := by
    have hrows : created.rows = db.rowsAfter compares
        (.create (model.inTable (shadowName model.table)) false) := hcreate.2
    rw [hrows, Statement.create, rowsAfter]
    simp only [Model.inTable, hmissing]
    rw [changeRows, ← hempty hmissing, Function.update_eq_self]
  have hcopied : copied.rows = Function.update db.rows (shadowName model.table)
      ((db.rows model.table).map (Record.only model.columns)) := by
    have hrows : copied.rows = created.rowsAfter compares
        (.copyRows model.table (shadowName model.table) model.columns) := hcopy.2
    rw [hrows, rowsAfter, changeRows, hcreated, hempty hmissing, List.nil_append]
    congr 1
    refine List.map_congr_left fun record _ => ?_
    -- every column of the shadow is copied, so none is left to its default
    have htarget : (created.catalog.tables (shadowName model.table)).getD []
        = model.tableColumns := by
      rw [hcatalog]
      exact congrArg (Option.getD · []) Catalog.tables_put_self
    rw [htarget]
    funext column
    unfold Record.copied Record.only
    split
    · rfl
    · next hnot =>
        rw [List.find?_eq_none.mpr, Option.map_none]
        intro other hother heq
        refine hnot ?_
        rw [← AppSchema.names_tableColumns]
        exact List.mem_map.mpr ⟨other, hother, of_decide_eq_true heq⟩
  have hdropped : dropped.rows = copied.changeRows model.table fun _ => [] := hdrop.2
  have hrenamed : renamed.rows = Function.update
      (dropped.changeRows (shadowName model.table) fun _ => []) model.table
      (dropped.rows (shadowName model.table)) := hrename.2
  rw [hrenamed, changeRows, hdropped, changeRows, hcopied, Function.update_of_ne hne,
    Function.update_self]
  funext other
  by_cases htable : other = model.table
  · subst htable
    simp [changeRows]
  · by_cases hother : other = shadowName model.table
    · subst hother
      simp [changeRows, hne, hempty hmissing]
    · simp [changeRows, htable, hother]

end Database

end SchemaHistory
