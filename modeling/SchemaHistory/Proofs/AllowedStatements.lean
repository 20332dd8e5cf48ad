import SchemaHistory.Proofs.TableEffects

/-!
# What a catalog allows

A catalog allows a statement if the names that it takes are free and the names that it uses are
there. For each statement this says that it is not refused then, and so for the lists of statements
that changes to a table consist of. Building a table anew needs one more free name, that of the
shadow table (`exists_renewal`); a catalog in which this name is taken refuses it
(`tables_of_renewal`).
-/

namespace SchemaHistory

theorem Backend.shadowName_ne (table : String) : shadowName table ≠ table := by
  intro heq
  have hlength := congrArg String.length heq
  rw [shadowName, String.length_append] at hlength
  have hsuffix : "__new".length = 5 := rfl
  omega

namespace Catalog

open Backend

variable {rest db db' : Catalog} {model old new : Model} {table : String} {columns : List Column}
  {indexes : IndexMap}

/-! ### One statement -/

/-- A table is created where there is none of its name. -/
theorem execute_createTable_eq (htable : rest.tables table = none)
    (hnames : (columns.map (·.name)).Nodup) :
    rest.execute (.createTable table columns false) =
      some (rest.put table columns fun _ => none) := by
  simp only [execute, htable, if_pos hnames]
  rfl

/-- A table without indexes can take any name that is free. -/
theorem execute_renameTable_eq (hfits : rest.Fits table fun _ => none) {newName : String}
    (hne : newName ≠ table) (hnew : rest.tables newName = none) :
    (rest.put table columns fun _ => none).execute (.renameTable table newName)
      = some (rest.put newName columns fun _ => none) := by
  have hallowed : ∃ db, (rest.put table columns fun _ => none).execute (.renameTable table newName)
      = some db := by
    simp only [execute, tables_put_self, tables_put_ne hne, hnew]
    exact ⟨_, rfl⟩
  obtain ⟨db, hdb⟩ := hallowed
  rw [hdb, execute_renameTable hfits hdb]

/-- A column with a new name goes to the end. -/
theorem execute_addColumn_eq {column : Column} (hnew : column.name ∉ columns.map (·.name)) :
    (rest.put table columns indexes).execute (.addColumn table column)
      = some (rest.put table (columns ++ [column]) indexes) := by
  simp only [execute, tables_put_self, if_neg hnew, setColumns_put]

theorem execute_setNotNull_eq {column : String} (hthere : column ∈ columns.map (·.name)) :
    (rest.put table columns indexes).execute (.setNotNull table column)
      = some (rest.put table (columns.map (refuseNulls column)) indexes) := by
  simp only [execute, tables_put_self, if_pos hthere, setColumns_put]

/-- A column is dropped if no index covers it. -/
theorem execute_dropColumn_eq (hfits : rest.Fits table indexes) {column : String}
    (hfree : ∀ i covered, indexes i = some covered → column ∉ covered)
    (hthere : column ∈ columns.map (·.name)) :
    (rest.put table columns indexes).execute (.dropColumn table column)
      = some (rest.put table (columns.filter (·.name ≠ column)) indexes) := by
  have hallowed : ∃ db, (rest.put table columns indexes).execute (.dropColumn table column)
      = some db := by
    simp only [execute, tables_put_self, if_pos hthere]
    exact ⟨_, rfl⟩
  obtain ⟨db, hdb⟩ := hallowed
  rw [hdb, execute_dropColumn hfits hfree hdb]

/-- An index is created if its name is free and its columns are there. -/
theorem execute_createIndex_eq {index : String} {covered : List String}
    (hrest : rest.indexes index = none) (hnew : indexes index = none)
    (hover : ∀ column ∈ covered, column ∈ columns.map (·.name)) :
    (rest.put table columns indexes).execute (.createIndex index table covered)
      = some (rest.put table columns fun i => if i = index then some covered else indexes i) := by
  have hallowed : ∃ db, (rest.put table columns indexes).execute (.createIndex index table covered)
      = some db := by
    simp only [execute, tables_put_self, indexes_put_of_none hnew, hrest]
    rw [if_pos hover]
    exact ⟨_, rfl⟩
  obtain ⟨db, hdb⟩ := hallowed
  rw [hdb, (execute_createIndex hdb).2.2]

/-! ### Creating indexes and building a table anew -/

/-- The indexes of a model, all of them new, are created on a table that has their columns. -/
theorem exists_createIndexes {names : List String} {statements : List Statement}
    (hnames : names.Nodup) (h : names.mapM (indexStatement model) = .ok statements)
    (hrest : ∀ i ∈ names, rest.indexes i = none) (hnew : ∀ i ∈ names, indexes i = none)
    (hover : ∀ i covered, model.indexMap i = some covered →
      ∀ column ∈ covered, column ∈ columns.map (·.name)) :
    ∃ db, (rest.put model.table columns indexes).executeAll statements = some db := by
  have hall := Except.mapM_eq_ok.mp h
  clear h
  induction hall generalizing indexes with
  | nil => exact ⟨_, rfl⟩
  | @cons name statement names statements hstatement _ ih =>
      obtain ⟨hnot, hnames⟩ := List.nodup_cons.mp hnames
      obtain ⟨hfirst, hrest⟩ := List.forall_mem_cons.mp hrest
      obtain ⟨hindex, hnew⟩ := List.forall_mem_cons.mp hnew
      obtain ⟨covered, hcovered, rfl⟩ := indexStatement_eq_ok hstatement
      rw [executeAll_cons, execute_createIndex_eq hfirst hindex (hover name covered hcovered)]
      refine ih hnames hrest fun i hi => ?_
      have hne : i ≠ name := by
        rintro rfl
        exact hnot hi
      rw [if_neg hne]
      exact hnew i hi

/-- A table can be built anew where the name of its shadow is free. -/
theorem exists_renewal (hfits : rest.Fits model.table model.indexMap)
    (hroom : rest.tables (shadowName model.table) = none) (hcolumns : model.columns.Nodup)
    (hindexes : model.indexes.names.Nodup)
    (hover : ∀ i covered, model.indexMap i = some covered →
      ∀ column ∈ covered, column ∈ model.tableColumns.map (·.name)) {kept : List String}
    {statements : List Statement}
    (h : model.indexes.names.mapM (indexStatement model) = .ok statements) :
    ∃ db, (rest.put model.table columns model.indexMap).executeAll (renewal model kept statements)
      = some db := by
  have hne := shadowName_ne model.table
  have hnames : (model.tableColumns.map (·.name)).Nodup := by
    rw [Model.tableColumns, List.map_map]
    exact hcolumns
  have hcreate : (rest.put model.table columns model.indexMap).execute
      (.create (model.inTable (shadowName model.table)) false)
      = some ((rest.put model.table columns model.indexMap).put (shadowName model.table)
        model.tableColumns fun _ => none) :=
    execute_createTable_eq ((tables_put_ne hne).trans hroom) hnames
  have hshadow : rest.Fits (shadowName model.table) fun _ => none :=
    ⟨⟨hroom, fun _ h => absurd rfl h⟩, hfits.sound⟩
  have hold : (rest.put (shadowName model.table) model.tableColumns fun _ => none).Fits
      model.table model.indexMap :=
    ⟨⟨(tables_put_ne hne.symm).trans hfits.table, hfits.indexes⟩, hfits.sound.put⟩
  -- the shadow is set beside the table, which then goes and leaves its name to the shadow
  rw [renewal, executeAll_append, executeAll_cons, hcreate, Option.bind_some,
    put_comm hne.symm fun _ => Or.inr rfl, executeAll_cons, execute, Option.bind_some,
    executeAll_cons, execute_dropTable hold, Option.bind_some, executeAll_cons,
    execute_renameTable_eq hshadow hne.symm hfits.table, Option.bind_some, executeAll_nil,
    Option.bind_some]
  refine exists_createIndexes hindexes h (fun i hi => ?_) (fun _ _ => rfl) hover
  exact hfits.indexes i (indexMap_ne_none.mpr hi)

/-- Where a table was built anew, the name of its shadow was free. -/
theorem tables_of_renewal {kept : List String} {statements : List Statement}
    (h : db.executeAll (renewal model kept statements) = some db') :
    db.tables (shadowName model.table) = none := by
  rw [renewal, executeAll_append, Option.bind_eq_some_iff] at h
  obtain ⟨bare, hbare, -⟩ := h
  rw [executeAll_cons, Option.bind_eq_some_iff] at hbare
  obtain ⟨shadowed, hcreate, -⟩ := hbare
  by_contra htaken
  obtain ⟨present, hpresent⟩ := Option.ne_none_iff_exists'.mp htaken
  have hname : (model.inTable (shadowName model.table)).table = shadowName model.table := rfl
  rw [Statement.create, execute, hname, hpresent] at hcreate
  simp at hcreate

/-! ### Adding and dropping columns -/

/-- Columns with new names are added one after the other. -/
theorem executeAll_additions_eq {inPlace : Bool} {fields : Fields}
    (hnames : ((columns ++ fields.map Column.ofEntry).map (·.name)).Nodup) :
    (rest.put table columns indexes).executeAll (fields.map (addition inPlace table))
      = some (rest.put table (columns ++ fields.map (looseEntry inPlace)) indexes) := by
  induction fields generalizing columns with
  | nil => rw [List.map_nil, List.map_nil, List.append_nil, executeAll_nil]
  | cons entry fields ih =>
      have hnew : (looseEntry inPlace entry).name ∉ columns.map (·.name) := by
        rw [List.map_append, List.nodup_append'] at hnames
        exact fun hin => hnames.2.2 hin List.mem_cons_self
      have hrest : ((columns ++ [looseEntry inPlace entry] ++ fields.map Column.ofEntry).map
          (·.name)).Nodup := by
        simpa using hnames
      have hstep : (rest.put table columns indexes).execute (addition inPlace table entry)
          = some (rest.put table (columns ++ [looseEntry inPlace entry]) indexes) :=
        execute_addColumn_eq hnew
      rw [List.map_cons, executeAll_cons, hstep, Option.bind_some, ih hrest, List.append_assoc]
      rfl

theorem exists_setNotNulls {strict : List String}
    (hthere : ∀ name ∈ strict, name ∈ columns.map (·.name)) :
    ∃ db, (rest.put table columns indexes).executeAll
      (strict.map (.setNotNull table)) = some db := by
  induction strict generalizing columns with
  | nil => exact ⟨_, rfl⟩
  | cons name strict ih =>
      obtain ⟨hname, hthere⟩ := List.forall_mem_cons.mp hthere
      rw [List.map_cons, executeAll_cons, execute_setNotNull_eq hname]
      refine ih fun other hother => ?_
      have hkept : (columns.map (refuseNulls name)).map (·.name) = columns.map (·.name) := by
        rw [List.map_map]
        refine List.map_congr_left fun column _ => ?_
        unfold refuseNulls
        rw [Function.comp_apply]
        split <;> rfl
      rw [hkept]
      exact hthere other hother

/-- The columns of some fields can be added where their names are free, and that of the shadow as
well if the table has to be built anew for them. -/
theorem exists_widening {inPlace : Bool} {now : DateTime} {fields : Fields}
    {statements : List Statement} (hfits : rest.Fits model.table model.indexMap)
    (hnames : ((columns ++ fields.map Column.ofEntry).map (·.name)).Nodup)
    (hroom : (fields.foldl (Adding.add inPlace now) {}).rebuild = true →
      rest.tables (shadowName model.table) = none)
    (hcolumns : model.columns.Nodup) (hindexes : model.indexes.names.Nodup)
    (hover : ∀ i covered, model.indexMap i = some covered →
      ∀ column ∈ covered, column ∈ model.tableColumns.map (·.name))
    (h : model.indexes.names.mapM (indexStatement model) = .ok statements) :
    ∃ db, (rest.put model.table columns model.indexMap).executeAll
      (widening inPlace now model fields statements) = some db := by
  simp only [widening]
  rw [executeAll_append, executeAll_append, executeAll_additions_eq hnames, Option.bind_some,
    executeAll_filling, Option.bind_some]
  unfold tightening
  split
  · next hrebuild => exact exists_renewal hfits (hroom hrebuild) hcolumns hindexes hover h
  · split
    · refine exists_setNotNulls fun name hname => ?_
      obtain ⟨hnotNull, -⟩ := foldl_add inPlace now fields {}
      rw [hnotNull] at hname
      obtain ⟨entry, hentry, rfl⟩ := List.mem_map.mp hname
      rw [List.map_append]
      refine List.mem_append_right _ (List.mem_map.mpr ⟨looseEntry inPlace entry, ?_, rfl⟩)
      exact List.mem_map_of_mem (List.mem_of_mem_filter hentry)
    · exact ⟨_, rfl⟩

/-- If adding columns made it build the table anew, the name of the shadow was free. -/
theorem tables_of_widening {inPlace : Bool} {now : DateTime} {fields : Fields}
    {statements : List Statement} (hnames : (columns.map (·.name)).Nodup)
    (hrebuild : (fields.foldl (Adding.add inPlace now) {}).rebuild = true)
    (h : (rest.put model.table columns model.indexMap).executeAll
      (widening inPlace now model fields statements) = some db) :
    rest.tables (shadowName model.table) = none := by
  obtain ⟨-, h⟩ := executeAll_tightening hnames h
  rw [tightening, if_pos hrebuild] at h
  rw [← tables_of_renewal h, tables_put_ne (shadowName_ne model.table)]

/-- Columns that no index covers are dropped one after the other. -/
theorem exists_dropColumns {names : List String} (hfits : rest.Fits table indexes)
    (hnames : names.Nodup)
    (hfree : ∀ i covered, indexes i = some covered → ∀ name ∈ names, name ∉ covered)
    (hthere : ∀ name ∈ names, name ∈ columns.map (·.name)) :
    ∃ db, (rest.put table columns indexes).executeAll
      (names.map (.dropColumn table)) = some db := by
  induction names generalizing columns with
  | nil => exact ⟨_, rfl⟩
  | cons name names ih =>
      obtain ⟨hnot, hnames⟩ := List.nodup_cons.mp hnames
      obtain ⟨hname, hthere⟩ := List.forall_mem_cons.mp hthere
      rw [List.map_cons, executeAll_cons, execute_dropColumn_eq hfits
        (fun i covered hi => hfree i covered hi name List.mem_cons_self) hname]
      refine ih hnames (fun i covered hi other hother =>
        hfree i covered hi other (List.mem_cons_of_mem _ hother)) fun other hother => ?_
      obtain ⟨column, hcolumn, rfl⟩ := List.mem_map.mp (hthere other hother)
      refine List.mem_map.mpr ⟨column, List.mem_filter.mpr ⟨hcolumn, decide_eq_true ?_⟩, rfl⟩
      rintro rfl
      exact hnot hother

/-- Columns that are there can be dropped where no index is over them, and where the name of the
shadow is free if the table has to be built anew for it. -/
theorem exists_narrowing {inPlace : Bool} {names : List String} {statements : List Statement}
    (htable : old.table = new.table) (hfits : rest.Fits new.table new.indexMap)
    (hnames : names.Nodup)
    (hfree : ∀ i covered, new.indexMap i = some covered → ∀ name ∈ names, name ∉ covered)
    (hthere : ∀ name ∈ names, name ∈ columns.map (·.name))
    (hroom : inPlace = false → rest.tables (shadowName new.table) = none)
    (hcolumns : new.columns.Nodup) (hindexes : new.indexes.names.Nodup)
    (hover : ∀ i covered, new.indexMap i = some covered →
      ∀ column ∈ covered, column ∈ new.tableColumns.map (·.name))
    (h : new.indexes.names.mapM (indexStatement new) = .ok statements) :
    ∃ db, (rest.put new.table columns new.indexMap).executeAll
      (narrowing inPlace old new names statements) = some db := by
  unfold narrowing
  cases inPlace with
  | true =>
      rw [if_pos rfl, htable]
      exact exists_dropColumns hfits hnames hfree hthere
  | false =>
      rw [if_neg (by simp)]
      exact exists_renewal hfits (hroom rfl) hcolumns hindexes hover h

end Catalog

end SchemaHistory
