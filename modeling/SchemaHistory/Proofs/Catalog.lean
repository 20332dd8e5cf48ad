import SchemaHistory.Backend
import Mathlib.Data.List.Basic

/-!
# The catalog of a database

A `Catalog` is what a database knows of its tables and indexes, apart from any rows. The columns of
a table have an order. The names of indexes are shared by all tables, and an index goes away with
its table or with a column it is over. `Catalog.execute` says what a statement makes of a catalog,
and when it is refused for the sake of the catalog.

The statements of an operation concern one table at a time. `Catalog.put` sets a table and its
indexes beside the rest of a catalog, and the lemmas on `execute` are about catalogs of this form:
the rest stays as it is.
-/

namespace SchemaHistory

structure TableIndex where
  table : String
  columns : List String
deriving DecidableEq

/-- The tables and indexes of a database, by name. -/
@[ext] structure Catalog where
  tables : String → Option (List Column)
  indexes : String → Option TableIndex

namespace Catalog

def empty : Catalog := ⟨fun _ => none, fun _ => none⟩

def setColumns (db : Catalog) (table : String) (columns : List Column) : Catalog :=
  { db with tables := fun t => if t = table then some columns else db.tables t }

def withoutTable (db : Catalog) (table : String) : Catalog where
  tables t := if t = table then none else db.tables t
  indexes i := (db.indexes i).filter (·.table ≠ table)

/-- The index after its table got another name. -/
def moveIndex (table newName : String) (index : TableIndex) : TableIndex :=
  if index.table = table then { index with table := newName } else index

/-- The column as one that refuses nulls, if it has the name. -/
def refuseNulls (name : String) (column : Column) : Column :=
  if column.name = name then { column with null := false } else column

/-- What a statement makes of a catalog, if it is not refused. Statements about rows change nothing
here, and what an unknown text would do cannot be said. -/
def execute (db : Catalog) : Statement → Option Catalog
  | .createTable table columns ifMissing =>
    match db.tables table with
    | some _ => if ifMissing then some db else none
    | none =>
      if (columns.map (·.name)).Nodup then some (db.setColumns table columns) else none
  | .dropTable table =>
    match db.tables table with
    | some _ => some (db.withoutTable table)
    | none => none
  | .renameTable table newName =>
    match db.tables table, db.tables newName with
    | some columns, none => some {
        tables := fun t =>
          if t = newName then some columns else if t = table then none else db.tables t
        indexes := fun i => (db.indexes i).map (moveIndex table newName) }
    | _, _ => none
  | .addColumn table column =>
    match db.tables table with
    | some columns =>
      if column.name ∈ columns.map (·.name) then none
      else some (db.setColumns table (columns ++ [column]))
    | none => none
  | .dropColumn table column =>
    match db.tables table with
    | some columns =>
      if column ∈ columns.map (·.name) then some {
        tables := (db.setColumns table (columns.filter (·.name ≠ column))).tables
        indexes := fun i => (db.indexes i).filter fun index =>
          ¬(index.table = table ∧ column ∈ index.columns) }
      else none
    | none => none
  | .setNotNull table column =>
    match db.tables table with
    | some columns =>
      if column ∈ columns.map (·.name) then
        some (db.setColumns table (columns.map (refuseNulls column)))
      else none
    | none => none
  | .createIndex index table columns =>
    match db.tables table, db.indexes index with
    | some present, none =>
      if ∀ column ∈ columns, column ∈ present.map (·.name) then some
        { db with indexes := fun i => if i = index then some ⟨table, columns⟩ else db.indexes i }
      else none
    | _, _ => none
  | .dropIndex index =>
    match db.indexes index with
    | some _ => some { db with indexes := fun i => if i = index then none else db.indexes i }
    | none => none
  | .copyRows .. | .insert .. | .update .. | .delete .. | .select .. => some db
  | .raw .. => none

/-- What statements make of a catalog one after the other, if none of them is refused. -/
def executeAll (db : Catalog) (statements : List Statement) : Option Catalog :=
  statements.foldlM execute db

@[simp] theorem executeAll_nil (db : Catalog) : db.executeAll [] = some db := rfl

@[simp] theorem executeAll_cons (db : Catalog) (statement : Statement) (rest : List Statement) :
    db.executeAll (statement :: rest) = (db.execute statement).bind (·.executeAll rest) := rfl

/-- Statements are carried out up to any point and from there on. -/
theorem executeAll_append (db : Catalog) (first rest : List Statement) :
    db.executeAll (first ++ rest) = (db.executeAll first).bind (·.executeAll rest) :=
  List.foldlM_append

/-! ### A table beside the rest of a catalog -/

/-- The columns of an index, by the name of the index. -/
abbrev IndexMap := String → Option (List String)

/-- Every index belongs to a table. -/
def Sound (db : Catalog) : Prop :=
    ∀ i index, db.indexes i = some index → db.tables index.table ≠ none

/-- The catalog with a further table and its indexes. -/
def put (rest : Catalog) (table : String) (columns : List Column) (indexes : IndexMap) :
    Catalog where
  tables t := if t = table then some columns else rest.tables t
  indexes i := match indexes i with
    | some covered => some ⟨table, covered⟩
    | none => rest.indexes i

/-- There is room for a table with the given indexes: their names are not taken. -/
structure Room (rest : Catalog) (table : String) (indexes : IndexMap) : Prop where
  table : rest.tables table = none
  indexes : ∀ i, indexes i ≠ none → rest.indexes i = none

/-- A catalog in which a further table can be changed: there is room for it, and no index claims to
belong to it. -/
structure Fits (rest : Catalog) (table : String) (indexes : IndexMap) : Prop
    extends Room rest table indexes where
  sound : rest.Sound

variable {rest db : Catalog} {table other : String} {columns : List Column} {indexes : IndexMap}

theorem sound_empty : Catalog.empty.Sound := nofun

@[simp] theorem tables_put_self : (rest.put table columns indexes).tables table = some columns :=
  if_pos rfl

/-- Other tables are as they were. -/
theorem tables_put_ne (h : other ≠ table) :
    (rest.put table columns indexes).tables other = rest.tables other :=
  if_neg h

theorem indexes_put_of_some {i : String} {covered : List String} (h : indexes i = some covered) :
    (rest.put table columns indexes).indexes i = some ⟨table, covered⟩ := by
  simp only [put, h]

theorem indexes_put_of_none {i : String} (h : indexes i = none) :
    (rest.put table columns indexes).indexes i = rest.indexes i := by
  simp only [put, h]

/-- A catalog stays sound when a table is put into it together with its indexes. -/
theorem Sound.put (h : rest.Sound) : (rest.put table columns indexes).Sound := by
  intro i index hindex
  by_cases htable : index.table = table
  · rw [htable, tables_put_self]
    exact Option.some_ne_none _
  · rw [tables_put_ne htable]
    cases hi : indexes i with
    | some covered =>
        rw [indexes_put_of_some hi] at hindex
        cases hindex
        exact absurd rfl htable
    | none =>
        rw [indexes_put_of_none hi] at hindex
        exact h i index hindex

/-- What is not in the catalog is not in it under the name of a table either. -/
theorem Fits.table_ne (h : rest.Fits table indexes) {i : String} {index : TableIndex}
    (hindex : rest.indexes i = some index) : index.table ≠ table := by
  rintro rfl
  exact h.sound i index hindex h.table

/-- Two tables can be put in either order, if their indexes have different names. -/
theorem put_comm {table' : String} {columns' : List Column} {indexes' : IndexMap}
    (htable : table ≠ table') (hindexes : ∀ i, indexes i = none ∨ indexes' i = none) :
    (rest.put table columns indexes).put table' columns' indexes'
      = (rest.put table' columns' indexes').put table columns indexes := by
  ext1
  · funext t
    show (if t = table' then _ else if t = table then _ else _)
      = (if t = table then _ else if t = table' then _ else _)
    by_cases h : t = table
    · rw [if_pos h, if_neg (h ▸ htable), if_pos h]
    · rw [if_neg h, if_neg h]
  · funext i
    -- at most one of the two tables has an index of this name
    rcases hindexes i with h | h
    · rw [indexes_put_of_none h]
      cases h' : indexes' i with
      | some covered => rw [indexes_put_of_some h', indexes_put_of_some h']
      | none => rw [indexes_put_of_none h', indexes_put_of_none h', indexes_put_of_none h]
    · rw [indexes_put_of_none h]
      cases h' : indexes i with
      | some covered => rw [indexes_put_of_some h', indexes_put_of_some h']
      | none => rw [indexes_put_of_none h', indexes_put_of_none h', indexes_put_of_none h]

theorem setColumns_put (columns' : List Column) :
    (rest.put table columns indexes).setColumns table columns'
    = rest.put table columns' indexes := by
  ext1
  · funext t
    show (if t = table then _ else if t = table then _ else _) = if t = table then _ else _
    by_cases h : t = table
    · rw [if_pos h, if_pos h]
    · rw [if_neg h, if_neg h, if_neg h]
  · rfl

/-! ### What statements do to the table -/

/-- The table of a new model. It has no indexes yet. -/
theorem execute_createTable (hsound : rest.Sound)
    (h : rest.execute (.createTable table columns false) = some db) :
    (columns.map (·.name)).Nodup ∧ rest.Fits table (fun _ => none) ∧
      db = rest.put table columns fun _ => none := by
  unfold execute at h
  cases htable : rest.tables table with
  | some present => simp [htable] at h
  | none =>
      simp only [htable, Option.ite_none_right_eq_some, Option.some.injEq] at h
      obtain ⟨hnames, rfl⟩ := h
      exact ⟨hnames, ⟨⟨htable, fun _ h => absurd rfl h⟩, hsound⟩, rfl⟩

/-- A table that is dropped takes its indexes with it. -/
theorem execute_dropTable (hfits : rest.Fits table indexes) :
    (rest.put table columns indexes).execute (.dropTable table) = some rest := by
  simp only [execute, tables_put_self, Option.some.injEq]
  ext1
  · funext t
    show (if t = table then none else _) = _
    by_cases h : t = table
    · rw [if_pos h, h, hfits.table]
    · rw [if_neg h, tables_put_ne h]
  · -- an index of the table goes, and its name is free in the rest; any other belongs elsewhere
    funext i
    show ((rest.put table columns indexes).indexes i).filter _ = _
    cases hi : indexes i with
    | some covered =>
        rw [indexes_put_of_some hi, hfits.indexes i (by rw [hi]; exact Option.some_ne_none _)]
        simp
    | none =>
        rw [indexes_put_of_none hi]
        cases hindex : rest.indexes i with
        | none => rfl
        | some index => simp [Option.filter, hfits.table_ne hindex]

/-- A table without indexes that takes a name which is free. -/
theorem execute_renameTable (hfits : rest.Fits table fun _ => none) {newName : String}
    (h : (rest.put table columns fun _ => none).execute (.renameTable table newName) = some db) :
    db = rest.put newName columns fun _ => none := by
  unfold execute at h
  cases hnew : (rest.put table columns fun _ => none).tables newName with
  | some present => simp [hnew] at h
  | none =>
      simp only [tables_put_self, hnew, Option.some.injEq] at h
      subst h
      ext1
      · funext t
        show (if t = newName then _ else if t = table then none else _)
          = if t = newName then _ else _
        by_cases h : t = newName
        · rw [if_pos h, if_pos h]
        · rw [if_neg h, if_neg h]
          by_cases ht : t = table
          · rw [if_pos ht, ht, hfits.table]
          · rw [if_neg ht, tables_put_ne ht]
      · -- no index belongs to the table, so none moves with it
        funext i
        show (rest.indexes i).map (moveIndex table newName) = rest.indexes i
        cases hindex : rest.indexes i with
        | none => rfl
        | some index => rw [Option.map_some, moveIndex, if_neg (hfits.table_ne hindex)]

/-- What a catalog says of a column that was added: its name was new, and it is the last one. -/
theorem execute_addColumn {column : Column}
    (h : (rest.put table columns indexes).execute (.addColumn table column) = some db) :
    column.name ∉ columns.map (·.name) ∧ db = rest.put table (columns ++ [column]) indexes := by
  simp only [execute, tables_put_self, Option.ite_none_left_eq_some, Option.some.injEq] at h
  obtain ⟨hname, rfl⟩ := h
  exact ⟨hname, setColumns_put _⟩

theorem execute_setNotNull {column : String}
    (h : (rest.put table columns indexes).execute (.setNotNull table column) = some db) :
    db = rest.put table (columns.map (refuseNulls column)) indexes := by
  simp only [execute, tables_put_self, Option.ite_none_right_eq_some, Option.some.injEq] at h
  obtain ⟨-, rfl⟩ := h
  exact setColumns_put _

/-- A column that no index of the table is over. -/
theorem execute_dropColumn (hfits : rest.Fits table indexes) {column : String}
    (hfree : ∀ i covered, indexes i = some covered → column ∉ covered)
    (h : (rest.put table columns indexes).execute (.dropColumn table column) = some db) :
    db = rest.put table (columns.filter (·.name ≠ column)) indexes := by
  simp only [execute, tables_put_self, Option.ite_none_right_eq_some, Option.some.injEq] at h
  obtain ⟨-, rfl⟩ := h
  ext1
  · show ((rest.put table columns indexes).setColumns table _).tables = _
    rw [setColumns_put]
  · funext i
    show ((rest.put table columns indexes).indexes i).filter _ = _
    cases hi : indexes i with
    | some covered =>
        rw [indexes_put_of_some hi, indexes_put_of_some hi]
        simp [Option.filter, hfree i covered hi]
    | none =>
        rw [indexes_put_of_none hi, indexes_put_of_none hi]
        cases hindex : rest.indexes i with
        | none => rfl
        | some index => simp [Option.filter, hfits.table_ne hindex]

/-- What it says of an index that was created: its name was taken by no table. -/
theorem execute_createIndex {index : String} {covered : List String}
    (h : (rest.put table columns indexes).execute (.createIndex index table covered) = some db) :
    rest.indexes index = none ∧ indexes index = none ∧
      db = rest.put table columns fun i => if i = index then some covered else indexes i := by
  unfold execute at h
  cases hindex : (rest.put table columns indexes).indexes index with
  | some present => simp [hindex] at h
  | none =>
      simp only [tables_put_self, hindex, Option.ite_none_right_eq_some, Option.some.injEq] at h
      obtain ⟨-, rfl⟩ := h
      have hfree : indexes index = none := by
        cases hi : indexes index with
        | none => rfl
        | some covered => rw [indexes_put_of_some hi] at hindex; cases hindex
      refine ⟨(indexes_put_of_none hfree).symm.trans hindex, hfree, ?_⟩
      ext1
      · rfl
      · funext i
        by_cases hi : i = index
        · rw [indexes_put_of_some (if_pos hi)]
          exact if_pos hi
        · simp only [put, if_neg hi]

theorem execute_dropIndex (hfits : rest.Fits table indexes) {index : String} {covered : List String}
    (hindex : indexes index = some covered) :
    (rest.put table columns indexes).execute (.dropIndex index)
      = some (rest.put table columns fun i => if i = index then none else indexes i) := by
  simp only [execute, indexes_put_of_some hindex, Option.some.injEq]
  ext1
  · rfl
  · funext i
    by_cases hi : i = index
    · subst hi
      rw [indexes_put_of_none (if_pos rfl)]
      show (if i = i then none else _) = _
      rw [if_pos rfl, hfits.indexes i (by rw [hindex]; exact Option.some_ne_none _)]
    · simp only [put, if_neg hi]

end Catalog

end SchemaHistory
