import SchemaHistory.Proofs.Catalog
import SchemaHistory.Proofs.TableChanges
import Mathlib.Data.List.Nodup

/-!
# What changes to a table do to the catalog

The statements of a change to a table, carried out on a catalog in which the table stands beside the
rest. Building a table anew ends with the columns and the indexes of the model. Adding columns in
place ends with the new columns behind the old ones, none of them weakened any more, and dropping
them leaves the other columns in their order.
-/

namespace SchemaHistory

def Model.columnsOf (model : Model) (fields : List String) : List String :=
  fields.filterMap fun name => (model.field? name).map (·.columnName name)

/-- The columns of each index. -/
def Model.indexMap (model : Model) : Catalog.IndexMap :=
  fun index => (model.indexes.get? index).map model.columnsOf

/-- The column of a field, by the name of the field. -/
def Column.ofEntry (entry : String × Field) : Column :=
  .ofField (entry.2.columnName entry.1) entry.2

theorem Model.columnsOf_eq {model : Model} {fields columns : List String}
    (h : fields.mapM model.column = .ok columns) : model.columnsOf fields = columns := by
  have hall := Except.mapM_eq_ok.mp h
  clear h
  induction hall with
  | nil => rfl
  | @cons name column fields columns hcolumn _ ih =>
      unfold Model.column at hcolumn
      split at hcolumn
      · next field hfield =>
          cases hcolumn
          rw [columnsOf, List.filterMap_cons, hfield]
          exact congrArg _ ih
      · cases hcolumn

namespace Catalog

open Backend

variable {rest db : Catalog} {model old new : Model} {table : String} {columns : List Column}
  {indexes : IndexMap}

/-! ### Creating indexes -/

theorem indexStatement_eq_ok {index : String} {statement : Statement}
    (h : indexStatement model index = .ok statement) :
    ∃ covered, model.indexMap index = some covered ∧
      statement = .createIndex index model.table covered := by
  unfold indexStatement at h
  cases hindex : model.indexes.get? index with
  | none => simp only [hindex, reduceCtorEq] at h
  | some fields =>
      simp only [hindex] at h
      obtain ⟨covered, hcovered, h⟩ := Except.bind_eq_ok.mp h
      cases h
      exact ⟨covered,
        by rw [Model.indexMap, hindex, Option.map_some, Model.columnsOf_eq hcovered], rfl⟩

/-- Indexes that were created are new, and the table has them. -/
theorem executeAll_createIndexes {names : List String} {statements : List Statement}
    (h : names.mapM (indexStatement model) = .ok statements)
    (hrun : (rest.put model.table columns indexes).executeAll statements = some db) :
    (∀ i ∈ names, rest.indexes i = none) ∧
      db = rest.put model.table columns
        fun i => if i ∈ names then model.indexMap i else indexes i := by
  have hall := Except.mapM_eq_ok.mp h
  clear h
  induction hall generalizing indexes with
  | nil =>
      cases hrun
      exact ⟨by simp, by simp⟩
  | @cons name statement names statements hstatement _ ih =>
      obtain ⟨covered, hcovered, rfl⟩ := indexStatement_eq_ok hstatement
      rw [executeAll_cons, Option.bind_eq_some_iff] at hrun
      obtain ⟨next, hnext, hrun⟩ := hrun
      obtain ⟨hfree, -, rfl⟩ := execute_createIndex hnext
      obtain ⟨hfrees, rfl⟩ := ih hrun
      refine ⟨List.forall_mem_cons.mpr ⟨hfree, hfrees⟩, ?_⟩
      congr 1
      funext i
      by_cases hi : i = name
      · subst hi
        simp [hcovered]
      · simp [hi]

/-- The names of the indexes of a model are those that have columns. -/
theorem indexMap_of_not_mem {index : String} (h : index ∉ model.indexes.names) :
    model.indexMap index = none := by
  rw [Model.indexMap, Named.get?_eq_none_iff.mpr h]
  rfl

theorem indexMap_ne_none {index : String} :
    model.indexMap index ≠ none ↔ index ∈ model.indexes.names := by
  rw [Model.indexMap, ne_eq, Option.map_eq_none_iff, Named.get?_eq_none_iff, not_not]

/-- All indexes of a model on a table that has none. -/
theorem executeAll_allIndexes {statements : List Statement}
    (hfits : rest.Fits model.table fun _ => none)
    (h : model.indexes.names.mapM (indexStatement model) = .ok statements)
    (hrun : (rest.put model.table columns fun _ => none).executeAll statements = some db) :
    rest.Fits model.table model.indexMap ∧ db = rest.put model.table columns model.indexMap := by
  obtain ⟨hfree, rfl⟩ := executeAll_createIndexes h hrun
  refine ⟨⟨⟨hfits.table, fun i hi => hfree i (indexMap_ne_none.mp hi)⟩, hfits.sound⟩, ?_⟩
  congr 1
  funext i
  split
  · rfl
  · next hi => rw [indexMap_of_not_mem hi]

/-! ### Building a table anew -/

/-- After building anew the table has the columns of the model and its indexes. -/
theorem executeAll_renewal (hfits : rest.Fits model.table indexes) {kept : List String}
    {statements : List Statement}
    (h : model.indexes.names.mapM (indexStatement model) = .ok statements)
    (hrun : (rest.put model.table columns indexes).executeAll (renewal model kept statements)
      = some db) :
    db = rest.put model.table model.tableColumns model.indexMap := by
  rw [renewal, executeAll_append, Option.bind_eq_some_iff] at hrun
  obtain ⟨bare, hbare, hrun⟩ := hrun
  rw [executeAll_cons, Option.bind_eq_some_iff] at hbare
  obtain ⟨shadowed, hcreate, hbare⟩ := hbare
  obtain ⟨-, hshadow, rfl⟩ := execute_createTable hfits.sound.put hcreate
  have hne : shadowName model.table ≠ model.table := by
    intro heq
    have hfree := hshadow.table
    simp [Model.inTable, heq] at hfree
  -- the shadow has no indexes, so it can be told apart from the table before and after
  have hrest : rest.Fits (shadowName model.table) fun _ => none :=
    ⟨⟨(tables_put_ne hne).symm.trans hshadow.table, fun _ h => absurd rfl h⟩, hfits.sound⟩
  have hold : (rest.put (shadowName model.table) model.tableColumns fun _ => none).Fits
      model.table indexes :=
    ⟨⟨(tables_put_ne hne.symm).trans hfits.table, hfits.indexes⟩, hfits.sound.put⟩
  have hcomm :
      ((rest.put model.table columns indexes).put (model.inTable (shadowName model.table)).table
      (model.inTable (shadowName model.table)).tableColumns fun _ => none)
      = (rest.put (shadowName model.table) model.tableColumns fun _ => none).put model.table columns
        indexes :=
    put_comm hne.symm fun _ => Or.inr rfl
  rw [hcomm, executeAll_cons, execute, Option.bind_some, executeAll_cons,
    execute_dropTable hold, Option.bind_some, executeAll_cons, Option.bind_eq_some_iff] at hbare
  obtain ⟨renamed, hrename, hbare⟩ := hbare
  cases hbare
  obtain rfl := execute_renameTable hrest hrename
  exact (executeAll_allIndexes ⟨⟨hfits.table, fun _ h => absurd rfl h⟩, hfits.sound⟩ h hrun).2

/-! ### Adding columns -/

/-- The column of a field as it is added. -/
def looseEntry (inPlace : Bool) (entry : String × Field) : Column :=
  looseColumn inPlace (entry.2.columnName entry.1) entry.2

/-- The names of columns that refuse nulls among those of some fields. -/
def strictNames (fields : Fields) : List String :=
  (fields.filter fun entry => !entry.2.null).map fun entry => entry.2.columnName entry.1

/-- A column that was added in place, with the constraint it still needs. -/
def tightened (strict : List String) (column : Column) : Column :=
  if column.name ∈ strict then { column with null := false } else column

@[simp] theorem name_ofEntry (entry : String × Field) :
    (Column.ofEntry entry).name = entry.2.columnName entry.1 := rfl

@[simp] theorem name_looseEntry (inPlace : Bool) (entry : String × Field) :
    (looseEntry inPlace entry).name = entry.2.columnName entry.1 := rfl

/-- Columns that were added stand after the others. -/
theorem executeAll_additions {inPlace : Bool} {fields : Fields}
    (hnames : (columns.map (·.name)).Nodup)
    (h : (rest.put table columns indexes).executeAll (fields.map (addition inPlace table))
      = some db) :
    ((columns ++ fields.map Column.ofEntry).map (·.name)).Nodup ∧
      db = rest.put table (columns ++ fields.map (looseEntry inPlace)) indexes := by
  induction fields generalizing columns with
  | nil =>
      cases h
      simpa using hnames
  | cons entry fields ih =>
      rw [List.map_cons, executeAll_cons, Option.bind_eq_some_iff] at h
      obtain ⟨next, hnext, h⟩ := h
      obtain ⟨hnew, rfl⟩ := execute_addColumn hnext
      -- the induction is on the fields, with the columns generalized: they grow by one each time
      have hnames' : ((columns ++ [looseEntry inPlace entry]).map (·.name)).Nodup := by
        rw [List.map_append, List.nodup_append']
        exact ⟨hnames, List.nodup_singleton _, List.disjoint_singleton.mpr hnew⟩
      obtain ⟨hall, rfl⟩ := ih hnames' h
      constructor
      · simpa using hall
      · rw [List.map_cons, List.append_assoc, List.singleton_append]

/-- What is known at the end about the columns that were added. -/
theorem foldl_add (inPlace : Bool) (now : DateTime) (fields : Fields) (start : Adding) :
    (fields.foldl (Adding.add inPlace now) start).notNull = start.notNull ++ strictNames fields ∧
      (fields.foldl (Adding.add inPlace now) start).rebuild = (start.rebuild ||
        fields.any fun entry => !inPlace && (!entry.2.null || entry.2.unique)) := by
  induction fields generalizing start with
  | nil => simp [strictNames]
  | cons entry fields ih =>
      obtain ⟨hnotNull, hrebuild⟩ := ih (start.add inPlace now entry)
      rw [List.foldl_cons, hnotNull, hrebuild]
      constructor
      · cases hnull : entry.2.null <;> simp [Adding.add, strictNames, hnull]
      · simp [Adding.add, Bool.or_assoc]

/-- Filling in values changes no table. -/
theorem executeAll_filling {fill : Row} : db.executeAll (filling model fill) = some db := by
  unfold filling
  split <;> rfl

/-- Columns that were made strict refuse null. -/
theorem executeAll_setNotNulls {strict : List String}
    (h : (rest.put table columns indexes).executeAll (strict.map (.setNotNull table)) = some db) :
    db = rest.put table (columns.map (tightened strict)) indexes := by
  induction strict generalizing columns with
  | nil =>
      cases h
      have hid : columns.map (tightened []) = columns :=
        (List.map_congr_left fun column _ => if_neg List.not_mem_nil).trans (List.map_id _)
      rw [hid]
  | cons name strict ih =>
      rw [List.map_cons, executeAll_cons, Option.bind_eq_some_iff] at h
      obtain ⟨next, hnext, h⟩ := h
      obtain rfl := execute_setNotNull hnext
      rw [ih h, List.map_map]
      congr 1
      apply List.map_congr_left
      intro column _
      by_cases hname : column.name = name
      · simp [tightened, refuseNulls, hname]
      · simp [tightened, refuseNulls, hname]

/-- Where a database can tighten columns in place, no weakness is left. -/
theorem tightened_looseEntry {fields : Fields} {entry : String × Field} (hentry : entry ∈ fields)
    (hnames : (fields.map fun entry => entry.2.columnName entry.1).Nodup) :
    tightened (strictNames fields) (looseEntry true entry) = Column.ofEntry entry := by
  unfold tightened
  by_cases hnull : entry.2.null = true
  · -- no other new column has its name, so nothing makes it refuse nulls
    have hnot : entry.2.columnName entry.1 ∉ strictNames fields := by
      intro hmem
      obtain ⟨other, hother, hname⟩ := List.mem_map.mp hmem
      obtain ⟨hother, hstrict⟩ := List.mem_filter.mp hother
      obtain rfl := List.inj_on_of_nodup_map hnames hother hentry hname
      rw [hnull] at hstrict
      cases hstrict
    rw [name_looseEntry, if_neg hnot]
    simp [looseEntry, looseColumn, Column.ofEntry, Column.ofField, hnull, Field.columnType,
      Field.isCounted, Field.isPrimaryKey]
  · have hmem : entry.2.columnName entry.1 ∈ strictNames fields :=
      List.mem_map.mpr ⟨entry, List.mem_filter.mpr ⟨hentry, by simpa using hnull⟩, rfl⟩
    rw [name_looseEntry, if_pos hmem]
    simp [looseEntry, looseColumn, Column.ofEntry, Column.ofField, hnull, Field.columnType,
      Field.isCounted, Field.isPrimaryKey]

theorem tightened_of_not_mem {strict : List String} {column : Column} (h : column.name ∉ strict) :
    tightened strict column = column :=
  if_neg h

/-- Where nothing asks for the table to be built anew, no weakness was needed. -/
theorem looseEntry_of_not_rebuild {entry : String × Field} (hnull : entry.2.null = true)
    (hunique : entry.2.unique = false) : looseEntry false entry = Column.ofEntry entry := by
  simp [looseEntry, looseColumn, Column.ofEntry, Column.ofField, hnull, hunique, Field.columnType,
    Field.isCounted, Field.isPrimaryKey]

/-- Adding columns has added them as they can be added in place, and then made them strict. -/
theorem executeAll_tightening {inPlace : Bool} {now : DateTime} {fields : Fields}
    {statements : List Statement} (hnames : (columns.map (·.name)).Nodup)
    (h : (rest.put model.table columns model.indexMap).executeAll
      (widening inPlace now model fields statements) = some db) :
    ((columns ++ fields.map Column.ofEntry).map (·.name)).Nodup ∧
      (rest.put model.table (columns ++ fields.map (looseEntry inPlace)) model.indexMap).executeAll
        (tightening inPlace model (fields.foldl (Adding.add inPlace now) {}) statements)
        = some db := by
  simp only [widening] at h
  rw [executeAll_append, Option.bind_eq_some_iff] at h
  obtain ⟨filled, hfilled, h⟩ := h
  rw [executeAll_append, Option.bind_eq_some_iff] at hfilled
  obtain ⟨added, hadded, hfilled⟩ := hfilled
  obtain rfl := Option.some.inj (executeAll_filling.symm.trans hfilled)
  obtain ⟨hall, rfl⟩ := executeAll_additions hnames hadded
  exact ⟨hall, h⟩

/-- The columns of some fields are added: behind the columns that were there, or in the order of the
model where the table was built anew. -/
theorem executeAll_widening {inPlace : Bool} {now : DateTime} {fields : Fields}
    {statements : List Statement} (hfits : rest.Fits model.table model.indexMap)
    (hnames : (columns.map (·.name)).Nodup)
    (hindexes : (fields.foldl (Adding.add inPlace now) {}).rebuild = true →
      model.indexes.names.mapM (indexStatement model) = .ok statements)
    (h : (rest.put model.table columns model.indexMap).executeAll
      (widening inPlace now model fields statements) = some db) :
    ((columns ++ fields.map Column.ofEntry).map (·.name)).Nodup ∧
      ∃ after, (after = columns ++ fields.map Column.ofEntry ∨ after = model.tableColumns) ∧
        db = rest.put model.table after model.indexMap := by
  obtain ⟨hall, h⟩ := executeAll_tightening hnames h
  set adding := fields.foldl (Adding.add inPlace now) {} with hadding
  obtain ⟨hnotNull, hrebuild⟩ := foldl_add inPlace now fields {}
  rw [← hadding] at hnotNull hrebuild
  refine ⟨hall, ?_⟩
  have hfields : (fields.map fun entry => entry.2.columnName entry.1).Nodup := by
    rw [List.map_append, List.nodup_append', List.map_map] at hall
    exact hall.2.1
  unfold tightening at h
  by_cases hr : adding.rebuild = true
  · rw [if_pos hr] at h
    exact ⟨_, Or.inr rfl, executeAll_renewal hfits (hindexes hr) h⟩
  · rw [if_neg hr] at h
    refine ⟨_, Or.inl rfl, ?_⟩
    cases hplace : inPlace with
    | true =>
        rw [hplace, if_pos rfl] at h
        obtain rfl := executeAll_setNotNulls h
        congr 1
        rw [List.map_append, List.map_map]
        congr 1
        · -- the columns that were there have other names than the new ones
          rw [List.map_congr_left (g := id), List.map_id]
          intro column hcolumn
          apply tightened_of_not_mem
          rw [hnotNull]
          intro hstrict
          obtain ⟨entry, hentry, hname⟩ := List.mem_map.mp hstrict
          rw [List.map_append, List.nodup_append', List.map_map] at hall
          exact hall.2.2 (List.mem_map_of_mem hcolumn)
            (List.mem_map.mpr ⟨entry, List.mem_of_mem_filter hentry, hname⟩)
        · apply List.map_congr_left
          intro entry hentry
          rw [hnotNull]
          exact tightened_looseEntry hentry hfields
    | false =>
        rw [hplace, if_neg (by simp)] at h
        cases h
        congr 2
        apply List.map_congr_left
        intro entry hentry
        have hfree : ¬(entry.2.null = false ∨ entry.2.unique = true) := by
          intro hany
          apply hr
          rw [hrebuild, hplace, Bool.false_or, List.any_eq_true]
          exact ⟨entry, hentry, by simpa using hany⟩
        rw [not_or, Bool.not_eq_false, Bool.not_eq_true] at hfree
        exact looseEntry_of_not_rebuild hfree.1 hfree.2

/-! ### Dropping columns -/

/-- Columns that no index covers are gone once they are dropped. -/
theorem executeAll_dropColumns {names : List String} (hfits : rest.Fits table indexes)
    (hfree : ∀ i covered, indexes i = some covered → ∀ name ∈ names, name ∉ covered)
    (h : (rest.put table columns indexes).executeAll (names.map (.dropColumn table)) = some db) :
    db = rest.put table (columns.filter (·.name ∉ names)) indexes := by
  induction names generalizing columns with
  | nil =>
      cases h
      simp
  | cons name names ih =>
      rw [List.map_cons, executeAll_cons, Option.bind_eq_some_iff] at h
      obtain ⟨next, hnext, h⟩ := h
      obtain rfl := execute_dropColumn hfits
        (fun i covered hi => hfree i covered hi name List.mem_cons_self) hnext
      rw [ih (fun i covered hi n hn => hfree i covered hi n (List.mem_cons_of_mem _ hn)) h,
        List.filter_filter]
      congr 1
      apply List.filter_congr
      intro column _
      by_cases hname : column.name = name <;> simp [hname]

/-- Columns are dropped: the others stay as they are, or stand in the order of the new model where
the table was built anew. -/
theorem executeAll_narrowing {inPlace : Bool} {names : List String} {statements : List Statement}
    (htable : old.table = new.table) (hfits : rest.Fits new.table new.indexMap)
    (hfree : ∀ i covered, new.indexMap i = some covered → ∀ name ∈ names, name ∉ covered)
    (hindexes : inPlace = false → new.indexes.names.mapM (indexStatement new) = .ok statements)
    (h : (rest.put new.table columns new.indexMap).executeAll
      (narrowing inPlace old new names statements) = some db) :
    ∃ after, (after = columns.filter (·.name ∉ names) ∨ after = new.tableColumns) ∧
      db = rest.put new.table after new.indexMap := by
  unfold narrowing at h
  cases inPlace with
  | true =>
      rw [if_pos rfl, htable] at h
      exact ⟨_, Or.inl rfl, executeAll_dropColumns hfits hfree h⟩
  | false =>
      rw [if_neg (by simp)] at h
      exact ⟨_, Or.inr rfl, executeAll_renewal hfits (hindexes rfl) h⟩

end Catalog

end SchemaHistory
