import SchemaHistory.Proofs.TableRows
import SchemaHistory.Proofs.RoundTrip

/-!
# Changing a table in place or building it anew

Which statements add or drop columns depends on what the database can do in place, and so does the
state of the table on the way: columns that are weaker than they should be, rows that are not filled
yet, a shadow beside the table. What the table is in the end does not depend on it.
`Database.Reshaped` says what has become of a table: its columns, its indexes and each of its rows.
-/

namespace SchemaHistory

/-- What the column of a field holds in rows that are older than the field. -/
def Field.initial (now : DateTime) (field : Field) : Value :=
  if field.null then field.default.getD .null else (field.filling now).getD .null

namespace Model

/-! ### Models and their tables -/

/-- The row after some fields of the model were added to its table. -/
def widen (model : Model) (now : DateTime) (names : List String) (record : Record) : Record :=
  fun column =>
    match model.fields.find? fun entry => entry.1 ∈ names ∧ entry.2.columnName entry.1 = column with
    | some entry => some (entry.2.initial now)
    | none => record column

/-- A row that has only columns of the model has no others when fields of the model are added. -/
theorem mem_columns_of_widen {model : Model} {now : DateTime} {names : List String}
    {record : Record} {column : String} (h : record column ≠ none → column ∈ model.columns)
    (hcolumn : model.widen now names record column ≠ none) : column ∈ model.columns := by
  unfold widen at hcolumn
  split at hcolumn
  · next entry hfind =>
      have hfound := List.find?_some hfind
      obtain ⟨-, rfl⟩ := of_decide_eq_true hfound
      exact List.mem_map_of_mem (List.mem_of_find?_eq_some hfind)
  · exact h hcolumn

/-- The row after some fields of the model were removed from its table. -/
def narrow (model : Model) (names : List String) (record : Record) : Record :=
  record.without (model.columnsOf names)

end Model

namespace Database

/-- The table of a model is there, with the columns of the model in some order, and with its
indexes. -/
structure HasTable (db : Database) (model : Model) : Prop where
  columns : ∃ columns, db.catalog.tables model.table = some columns ∧
    columns.Perm model.tableColumns
  indexes : ∀ index covered, db.catalog.indexes index = some ⟨model.table, covered⟩ ↔
    model.indexMap index = some covered

/-- The table of a model has become that of the model, up to the order of columns, and each of its
rows was changed in the same manner. There are the indexes and the other tables that were there. -/
structure Reshaped (db : Database) (model : Model) (change : Record → Record) (db' : Database) :
    Prop where
  columns : ∃ columns, db'.catalog.tables model.table = some columns ∧
    columns.Perm model.tableColumns
  tables : ∀ table, table ≠ model.table → db'.catalog.tables table = db.catalog.tables table
  indexes : db'.catalog.indexes = db.catalog.indexes
  rows : db'.rows = db.changeRows model.table (List.map change)

/-- Two databases are the same up to the order of columns. -/
structure Alike (db db' : Database) : Prop where
  catalog : db.catalog.Like List.Perm db'.catalog
  rows : db.rows = db'.rows

variable {db db' db'' : Database} {model : Model} {change : Record → Record}

/-- What has become of a table determines the database. -/
theorem Reshaped.alike (h : db.Reshaped model change db') (h' : db.Reshaped model change db'') :
    db'.Alike db'' := by
  refine ⟨⟨fun table => ?_, h.indexes.trans h'.indexes.symm⟩, h.rows.trans h'.rows.symm⟩
  by_cases htable : table = model.table
  · obtain ⟨columns, hcolumns, hperm⟩ := h.columns
    obtain ⟨columns', hcolumns', hperm'⟩ := h'.columns
    rw [htable, hcolumns, hcolumns']
    exact Option.Rel.some (hperm.trans hperm'.symm)
  · rw [h.tables table htable, h'.tables table htable]
    exact (Catalog.Like.refl Catalog.likeness_perm db.catalog).tables table

/-- The table of a model that is put anew beside the same rest is reshaped. -/
theorem Reshaped.of_put {rest : Catalog} {before after : List Column}
    (hcatalog : db.catalog = rest.put model.table before model.indexMap)
    (hcatalog' : db'.catalog = rest.put model.table after model.indexMap)
    (hperm : after.Perm model.tableColumns)
    (hrows : db'.rows = db.changeRows model.table (List.map change)) :
    db.Reshaped model change db' where
  columns := ⟨after, by rw [hcatalog', Catalog.tables_put_self], hperm⟩
  tables table hne := by
    rw [hcatalog', hcatalog, Catalog.tables_put_ne hne, Catalog.tables_put_ne hne]
  indexes := by
    rw [hcatalog', hcatalog]
    rfl
  rows := hrows

/-- The table of a model beside the rest. -/
theorem HasTable.exists_rest (h : db.HasTable model) (hsound : db.catalog.Sound) :
    ∃ (rest : Catalog) (columns : List Column),
      db.catalog = rest.put model.table columns model.indexMap ∧
      columns.Perm model.tableColumns ∧ rest.Fits model.table model.indexMap := by
  obtain ⟨columns, hcolumns, hperm⟩ := h.columns
  refine ⟨⟨fun t => if t = model.table then none else db.catalog.tables t,
    fun i => if model.indexMap i = none then db.catalog.indexes i else none⟩, columns, ?_, hperm,
    ⟨⟨if_pos rfl, fun i hi => if_neg hi⟩, ?_⟩⟩
  · ext1
    · funext t
      show _ = if t = model.table then _ else if t = model.table then _ else _
      by_cases ht : t = model.table
      · rw [if_pos ht, ht, hcolumns]
      · rw [if_neg ht, if_neg ht]
    · funext i
      cases hi : model.indexMap i with
      | some covered =>
          rw [Catalog.indexes_put_of_some hi]
          exact (h.indexes i covered).mpr hi
      | none =>
          rw [Catalog.indexes_put_of_none hi]
          exact (if_pos hi).symm
  · -- an index of the rest belongs to another table, since the model has all those of its own
    intro i index hindex
    dsimp only at hindex ⊢
    split at hindex
    · next hi =>
        have hne : index.table ≠ model.table := by
          intro heq
          have hown := (h.indexes i index.columns).mp (heq ▸ hindex)
          rw [hi] at hown
          cases hown
        rw [if_neg hne]
        exact hsound i index hindex
    · cases hindex

end Database

/-! ### The values of new columns -/

namespace Backend

variable {inPlace : Bool} {now : DateTime} {name : String} {field : Field} {fields : Fields}
  {start : Adding} {model : Model} {names : List String} {fill : Row} {record : Record}
  {column : String}

/-- Columns that are not added are not filled. -/
theorem fill_of_not_mem (h : name ∉ fields.names) :
    (fields.foldl (Adding.add inPlace now) start).fill.get? name = start.fill.get? name := by
  induction fields generalizing start with
  | nil => rfl
  | cons entry rest ih =>
      rw [Named.names_cons, List.mem_cons, not_or] at h
      rw [List.foldl_cons, ih h.2, Adding.add]
      dsimp only
      split
      · rfl
      · split
        · rw [Named.get?_insert_ne (Ne.symm h.1)]
        · rfl

/-- What a field is to be filled with, once it is among the fields being added. -/
theorem fill_of_mem (hnames : fields.names.Nodup) (hentry : (name, field) ∈ fields)
    (hfill : CanFill now field) (hstart : start.fill.get? name = none) :
    (fields.foldl (Adding.add inPlace now) start).fill.get? name
      = if field.null then none else some (field.initial now) := by
  induction fields generalizing start with
  | nil => cases hentry
  | cons entry rest ih =>
      rw [Named.names_cons, List.nodup_cons] at hnames
      rw [List.foldl_cons]
      rcases List.mem_cons.mp hentry with rfl | hentry
      · rw [fill_of_not_mem hnames.1, Adding.add]
        rcases hfill with hnull | ⟨value, hvalue⟩
        · simp [hnull, hstart]
        · cases hnull : field.null with
          | true => simp [hstart]
          | false => simp [hvalue, Named.get?_insert_self, Field.initial, hnull]
      · refine ih hnames.2 hentry ?_
        -- the field before it has another name
        have hne : entry.1 ≠ name := fun heq =>
          hnames.1 (heq ▸ List.mem_map.mpr ⟨_, hentry, rfl⟩)
        rw [Adding.add]
        dsimp only
        split
        · exact hstart
        · split
          · rw [Named.get?_insert_ne hne, hstart]
          · exact hstart

/-- The values of an update are those filled in for the fields other than the key. -/
theorem mem_updateValues {value : Value} : (column, value) ∈ updateValues model fill ↔
    ∃ entry ∈ model.fields, entry.1 ≠ model.key ∧ fill.get? entry.1 = some value ∧
      entry.2.columnName entry.1 = column := by
  rw [updateValues, List.mem_filterMap]
  constructor
  · rintro ⟨entry, hentry, hvalue⟩
    dsimp only at hvalue
    split at hvalue
    · cases hvalue
    · next hkey =>
        obtain ⟨value', hvalue', heq⟩ := Option.map_eq_some_iff.mp hvalue
        cases heq
        exact ⟨entry, hentry, hkey, hvalue', rfl⟩
  · rintro ⟨entry, hentry, hkey, hvalue, rfl⟩
    refine ⟨entry, hentry, ?_⟩
    dsimp only
    rw [if_neg hkey, hvalue]
    rfl

/-- No column is set twice. -/
theorem nodup_updateValues (hcolumns : model.columns.Nodup) :
    ((updateValues model fill).map (·.1)).Nodup := by
  refine hcolumns.sublist ?_
  unfold updateValues Model.columns
  induction model.fields with
  | nil => exact List.Sublist.slnil
  | cons entry rest ih =>
      rw [List.filterMap_cons, List.map_cons]
      split
      · exact ih.cons _
      · next assigned hassigned =>
          dsimp only at hassigned
          split at hassigned
          · cases hassigned
          · obtain ⟨value, -, rfl⟩ := Option.map_eq_some_iff.mp hassigned
            rw [List.map_cons]
            exact ih.cons_cons _

/-- Fields whose columns have different names have different names too. -/
theorem Picks.nodup_names (h : Picks now model names fields)
    (hnew : (fields.map fun entry => entry.2.columnName entry.1).Nodup) : fields.names.Nodup := by
  refine (List.nodup_map_iff_inj_on (hnew.of_map _)).mpr fun x hx y hy heq => ?_
  have hfield := h.field? x hx
  rw [heq, h.field? y hy, Option.some.injEq] at hfield
  exact Prod.ext heq hfield.symm

/-- A column that is not added keeps its value. -/
theorem assign_of_unpicked (hpicks : Picks now model names fields)
    (hother : ∀ entry ∈ model.fields, entry.1 ∈ names → entry.2.columnName entry.1 ≠ column) :
    Record.assign (updateValues model (fields.foldl (Adding.add inPlace now) {}).fill)
      (Record.assign (fields.map fun entry =>
        (entry.2.columnName entry.1, entry.2.default.getD .null)) record) column
      = record column := by
  rw [Record.assign_of_not_mem, Record.assign_of_not_mem]
  · rw [List.map_map]
    intro hin
    obtain ⟨entry, hentry, heq⟩ := List.mem_map.mp hin
    exact hother entry (Named.mem_of_get? (hpicks.field? entry hentry))
      (hpicks.names_eq ▸ List.mem_map_of_mem hentry) heq
  · intro hin
    obtain ⟨assigned, hassigned, rfl⟩ := List.mem_map.mp hin
    obtain ⟨entry, hentry, -, hvalue, heq⟩ := mem_updateValues.mp hassigned
    refine hother entry hentry ?_ heq
    rw [← hpicks.names_eq]
    by_contra hnot
    rw [fill_of_not_mem hnot] at hvalue
    cases hvalue

/-- A column that is added holds what its field starts with, by its default or by being filled. -/
theorem assign_of_picked (hcolumns : model.columns.Nodup) (hpicks : Picks now model names fields)
    (hnew : (fields.map fun entry => entry.2.columnName entry.1).Nodup)
    (hentry : (name, field) ∈ fields) (hkey : name ≠ model.key) :
    Record.assign (updateValues model (fields.foldl (Adding.add inPlace now) {}).fill)
      (Record.assign (fields.map fun entry =>
        (entry.2.columnName entry.1, entry.2.default.getD .null)) record) (field.columnName name)
      = some (field.initial now) := by
  have hin : (name, field) ∈ model.fields := Named.mem_of_get? (hpicks.field? _ hentry)
  have hfill : (fields.foldl (Adding.add inPlace now) {}).fill.get? name
      = if field.null then none else some (field.initial now) :=
    fill_of_mem (hpicks.nodup_names hnew) hentry (hpicks.canFill _ hentry) rfl
  by_cases hnull : field.null = true
  · -- nothing fills the column, so its default stays
    rw [if_pos hnull] at hfill
    rw [Record.assign_of_not_mem]
    · have hkeys : ((fields.map fun entry => (entry.2.columnName entry.1,
          entry.2.default.getD .null)).map (·.1)).Nodup := by
        rw [List.map_map]
        exact hnew
      rw [Record.assign_of_mem hkeys (List.mem_map_of_mem hentry), Field.initial, if_pos hnull]
    · intro hkeyed
      obtain ⟨assigned, hassigned, heq⟩ := List.mem_map.mp hkeyed
      obtain ⟨other, hother, -, hvalue, hcolumn⟩ := mem_updateValues.mp hassigned
      obtain rfl := List.inj_on_of_nodup_map hcolumns hother hin (hcolumn.trans heq)
      rw [hfill] at hvalue
      cases hvalue
  · rw [if_neg hnull] at hfill
    exact Record.assign_of_mem (nodup_updateValues hcolumns)
      (mem_updateValues.mpr ⟨(name, field), hin, hkey, hfill, rfl⟩)

/-- Adding the columns with their defaults and filling them gives the rows that are wanted. -/
theorem assign_eq_widen (hm : model.Sound) (hcolumns : model.columns.Nodup)
    (hkey : model.key ∉ names) (hpicks : Picks now model names fields)
    (hnew : (fields.map fun entry => entry.2.columnName entry.1).Nodup) :
    Record.assign (updateValues model (fields.foldl (Adding.add inPlace now) {}).fill)
      (Record.assign (fields.map fun entry =>
        (entry.2.columnName entry.1, entry.2.default.getD .null)) record)
      = model.widen now names record := by
  funext column
  unfold Model.widen
  cases hfind : model.fields.find? fun entry =>
      entry.1 ∈ names ∧ entry.2.columnName entry.1 = column with
  | none =>
      refine assign_of_unpicked hpicks fun entry hentry hname heq => ?_
      exact List.find?_eq_none.mp hfind entry hentry (decide_eq_true ⟨hname, heq⟩)
  | some entry =>
      have hfound := List.find?_some hfind
      obtain ⟨hname, rfl⟩ := of_decide_eq_true hfound
      -- a field of the model that is named among them is one of them
      have hentry : entry ∈ fields := by
        have hin := hname
        rw [← hpicks.names_eq] at hin
        obtain ⟨other, hother, heq⟩ := List.mem_map.mp hin
        have hfield := hpicks.field? other hother
        rw [heq, Model.field?, Named.get?_of_mem hm.fields (List.mem_of_find?_eq_some hfind),
          Option.some.injEq] at hfield
        rwa [Prod.ext heq.symm hfield]
      refine assign_of_picked hcolumns hpicks hnew hentry ?_
      rintro heq
      exact hkey (heq ▸ hname)

end Backend

/-! ### The two changes -/

namespace Database

open Backend Catalog

variable {compares : Comparison → Value → Value → Truth} {db db' : Database} {model : Model}
  {names : List String} {fields : Fields} {columns : List String} {statements : List Statement}
  {inPlace : Bool} {now : DateTime}

/-- No index of a model is over fields without which the model is sound. -/
theorem not_isIndexed_of_sound (h : (model.withoutFields names).Sound) :
    ∀ name ∈ names, model.isIndexed name = false := by
  intro name hname
  rw [Model.isIndexed, List.any_eq_false]
  rintro ⟨index, covered⟩ hindex hcovered
  have hget : (model.withoutFields names).indexes.get? index = some covered :=
    Named.get?_of_mem h.indexes.nodup_names hindex
  obtain ⟨entry, hentry, rfl⟩ :=
    List.mem_map.mp (h.indexed index covered hget name (by simpa using hcovered))
  exact of_decide_eq_true (List.mem_filter.mp hentry).2 hname

/-- Tightening the columns of a table leaves its rows as they are, if they have no columns beside
those of the model. -/
theorem Runs.rows_tightening {adding : Adding} (hsound : db.catalog.Sound)
    (htable : db.catalog.tables model.table ≠ none)
    (hempty : db.catalog.tables (shadowName model.table) = none →
      db.rows (shadowName model.table) = [])
    (hrecords : ∀ record ∈ db.rows model.table, ∀ column, record column ≠ none →
      column ∈ model.columns)
    (hindexes : adding.rebuild = true →
      model.indexes.names.mapM (indexStatement model) = .ok statements)
    (h : Runs compares (tightening inPlace model adding statements) db db') :
    db'.rows = db.rows := by
  unfold tightening at h
  split at h
  · next hrebuild =>
      have hsame : (db.rows model.table).map (Record.only model.columns)
          = (db.rows model.table).map id := List.map_congr_left fun record hrecord =>
        Record.only_eq_self (hrecords record hrecord)
      rw [h.rows_renewal hsound htable hempty (hindexes hrebuild), changeRows, hsame, List.map_id,
        Function.update_eq_self]
  · split at h
    · exact h.rows_setNotNulls
    · cases h
      rfl

/-- Widening the table of a model fills the new columns of each row. -/
theorem Runs.rows_widening {rest : Catalog} {before : List Column} (hsound : db.Sound)
    (hm : model.Sound) (hcolumns : model.columns.Nodup) (hkey : model.key ∉ names)
    (hpicks : Picks now model names fields)
    (hnew : (fields.map fun entry => entry.2.columnName entry.1).Nodup)
    (hcatalog : db.catalog = rest.put model.table before model.indexMap)
    (hperm : before.Perm (model.withoutFields names).tableColumns)
    (hfits : rest.Fits model.table model.indexMap)
    (hindexes : (fields.foldl (Adding.add inPlace now) {}).rebuild = true →
      model.indexes.names.mapM (indexStatement model) = .ok statements)
    (h : Runs compares (widening inPlace now model fields statements) db db') :
    db'.rows = db.changeRows model.table (List.map (model.widen now names)) := by
  have htable : db.catalog.tables model.table = some before := by rw [hcatalog, tables_put_self]
  simp only [widening] at h
  obtain ⟨filled, hfilled, htight⟩ := runs_append.mp h
  obtain ⟨added, hadded, hfilling⟩ := runs_append.mp hfilled
  have hrows : filled.rows = db.changeRows model.table (List.map (model.widen now names)) := by
    rw [hfilling.rows_filling, changeRows_changeRows hadded.rows_additions]
    congr 2
    funext record
    exact assign_eq_widen hm hcolumns hkey hpicks hnew
  have hput : filled.catalog
      = rest.put model.table (before ++ fields.map (looseEntry inPlace)) model.indexMap := by
    have hexec := hadded.executeAll
    rw [hcatalog] at hexec
    rw [← (executeAll_additions (hsound.columns _ _ htable) hexec).2]
    exact (Option.some.inj (executeAll_filling.symm.trans hfilling.executeAll)).symm
  have hthere : filled.catalog.tables model.table ≠ none := by
    rw [hput, tables_put_self]
    exact Option.some_ne_none _
  have hempty : filled.catalog.tables (shadowName model.table) = none →
      filled.rows (shadowName model.table) = [] := by
    intro hmissing
    have hne : shadowName model.table ≠ model.table := fun heq => hthere (heq ▸ hmissing)
    rw [hrows, changeRows, Function.update_of_ne hne]
    refine hsound.missing _ ?_
    rw [hcatalog, tables_put_ne hne]
    rwa [hput, tables_put_ne hne] at hmissing
  have hrecords : ∀ record ∈ filled.rows model.table, ∀ column, record column ≠ none →
      column ∈ model.columns := by
    rw [hrows, changeRows, Function.update_self]
    intro record hrecord column
    obtain ⟨old, hold, rfl⟩ := List.mem_map.mp hrecord
    refine Model.mem_columns_of_widen fun hrecorded => ?_
    have hpresent := (hsound.fits _ _ htable old hold column).mp hrecorded
    rw [(hperm.map _).mem_iff, AppSchema.names_tableColumns] at hpresent
    exact (List.filter_sublist.map _).subset hpresent
  rw [htight.rows_tightening (hput ▸ hfits.sound.put) hthere hempty hrecords hindexes, hrows]

/-- Adding columns ends in one and the same table, in place or anew. -/
theorem Runs.widened (hsound : db.Sound) (hm : model.Sound)
    (hless : (model.withoutFields names).Sound)
    (hkey : model.key ∉ names) (htable : db.HasTable (model.withoutFields names))
    (hpicks : Picks now model names fields)
    (hindexes : (fields.foldl (Adding.add inPlace now) {}).rebuild = true →
      model.indexes.names.mapM (indexStatement model) = .ok statements)
    (h : Runs compares (widening inPlace now model fields statements) db db') :
    db.Reshaped model (model.widen now names) db' := by
  obtain ⟨rest, before, hcatalog, hperm, hfits⟩ := htable.exists_rest hsound.catalog
  rw [Model.indexMap_withoutFields hm (not_isIndexed_of_sound hless)] at hcatalog hfits
  change db.catalog = rest.put model.table before model.indexMap at hcatalog
  change rest.Fits model.table model.indexMap at hfits
  have hbefore : (before.map (·.name)).Nodup :=
    hsound.columns _ _ (hcatalog ▸ tables_put_self)
  have hexec := h.executeAll
  rw [hcatalog] at hexec
  obtain ⟨hall, after, hafter, hcatalog'⟩ := executeAll_widening hfits hbefore hindexes hexec
  have hnew : (fields.map fun entry => entry.2.columnName entry.1).Nodup := by
    rw [List.map_append, List.nodup_append', List.map_map] at hall
    exact hall.2.1
  have hnames : names.Nodup := hpicks.names_eq ▸ hpicks.nodup_names hnew
  have hadd : (before ++ fields.map Column.ofEntry).Perm model.tableColumns :=
    (hperm.append_right _).trans
      (List.map_append ▸ (Model.perm_of_picks hm hnames hpicks).map Column.ofEntry)
  have hafterPerm : after.Perm model.tableColumns := by
    rcases hafter with rfl | rfl
    · exact hadd
    · exact List.Perm.refl _
  have hcolumns : model.columns.Nodup := by
    rw [← AppSchema.names_tableColumns, ← (hadd.map _).nodup_iff]
    exact hall
  exact .of_put hcatalog hcatalog' hafterPerm
    (h.rows_widening hsound hm hcolumns hkey hpicks hnew hcatalog hperm hfits hindexes)

theorem columns_withoutFields (hm : model.Sound) (hcolumns : model.columns.Nodup) :
    (model.withoutFields names).columns
      = model.columns.filter fun column => column ∉ model.columnsOf names := by
  rw [← AppSchema.names_tableColumns, ← AppSchema.names_tableColumns,
    Model.tableColumns_withoutFields hm hcolumns, List.filter_map]
  rfl

/-- Narrowing the table of a model takes the values of the columns that go out of each row. -/
theorem Runs.rows_narrowing {before : List Column} (hsound : db.Sound) (hm : model.Sound)
    (hcolumns : model.columns.Nodup) (htable : db.catalog.tables model.table = some before)
    (hperm : before.Perm model.tableColumns)
    (hindexes : inPlace = false → (model.withoutFields names).indexes.names.mapM
      (indexStatement (model.withoutFields names)) = .ok statements)
    (h : Runs compares (narrowing inPlace model (model.withoutFields names)
      (model.columnsOf names) statements) db db') :
    db'.rows = db.changeRows model.table (List.map (model.narrow names)) := by
  unfold narrowing at h
  split at h
  · exact h.rows_dropColumns
  · next hplace =>
      have hrenewed := h.rows_renewal hsound.catalog
        (by rw [Model.withoutFields, htable]; exact Option.some_ne_none _)
        (hsound.missing _) (hindexes (Bool.not_eq_true _ ▸ hplace))
      rw [hrenewed]
      -- a column that is not kept is one that goes, or not there at all
      refine congrArg (Function.update _ _) (List.map_congr_left fun record hrecord => ?_)
      funext column
      have hfits := hsound.fits _ _ htable record hrecord column
      rw [(hperm.map _).mem_iff, AppSchema.names_tableColumns] at hfits
      show (if column ∈ (model.withoutFields names).columns then record column else none)
        = if column ∈ model.columnsOf names then none else record column
      rw [columns_withoutFields hm hcolumns]
      by_cases hgone : column ∈ model.columnsOf names
      · simp [hgone]
      · by_cases hthere : column ∈ model.columns
        · simp [hgone, hthere]
        · simp [hgone, hthere, not_not.mp (mt hfits.mp hthere)]

theorem Runs.narrowed (hsound : db.Sound) (hm : model.Sound)
    (hless : (model.withoutFields names).Sound) (htable : db.HasTable model)
    (hdropped : names.mapM model.column = .ok columns)
    (hindexes : inPlace = false → (model.withoutFields names).indexes.names.mapM
      (indexStatement (model.withoutFields names)) = .ok statements)
    (h : Runs compares (narrowing inPlace model (model.withoutFields names) columns statements)
      db db') :
    db.Reshaped (model.withoutFields names) (model.narrow names) db' := by
  have hfree := not_isIndexed_of_sound hless
  have hmap := Model.indexMap_withoutFields hm hfree
  obtain ⟨rest, before, hcatalog, hperm, hfits⟩ := htable.exists_rest hsound.catalog
  obtain rfl := Model.columnsOf_eq hdropped
  have htableSome : db.catalog.tables model.table = some before := by
    rw [hcatalog, tables_put_self]
  have hcolumns : model.columns.Nodup := by
    rw [← AppSchema.names_tableColumns, ← (hperm.map _).nodup_iff]
    exact hsound.columns _ _ htableSome
  rw [← hmap] at hcatalog hfits
  have hgone : ∀ i covered, (model.withoutFields names).indexMap i = some covered →
      ∀ column ∈ model.columnsOf names, column ∉ covered := fun i covered hi =>
    Model.not_mem_indexMap hcolumns hfree (hmap ▸ hi)
  have hexec := h.executeAll
  rw [hcatalog] at hexec
  obtain ⟨after, hafter, hcatalog'⟩ :=
    executeAll_narrowing rfl hfits hgone hindexes hexec
  have hafterPerm : after.Perm (model.withoutFields names).tableColumns := by
    rcases hafter with rfl | rfl
    · rw [Model.tableColumns_withoutFields hm hcolumns]
      exact hperm.filter _
    · exact List.Perm.refl _
  exact .of_put hcatalog hcatalog' hafterPerm
    (h.rows_narrowing hsound hm hcolumns htableSome hperm hindexes)

end Database

namespace Backend

open Database

/-- Let two backends, whatever their databases can do in place, show the same clock, and begin with
the same database. Let a model be sound with and without some of its fields, its key not among them.
Where both add the fields to the table of the model without them, or both remove the fields from its
table, what has become of the table is the same up to the order of columns, and there are the other
tables that were there: no shadow is left. A row that widens keeps what it holds in other columns,
and holds in a new one what fills it, or where the column takes nulls its default or null. -/
theorem same_table_in_place_or_anew {σ τ : Type} {backend : Backend σ} {other : Backend τ}
    {compares : Comparison → Value → Value → Truth} {contents : σ → Database}
    {contents' : τ → Database} (hkeeps : backend.Keeps compares contents)
    (hkeeps' : other.Keeps compares contents') (hnow : other.now = backend.now) {model : Model}
    {names : List String} (hm : model.Sound) (hless : (model.withoutFields names).Sound)
    (hkey : model.key ∉ names) {s t : σ} {s' t' : τ}
    (hsound : (contents s).Sound) (hstart : contents' s' = contents s) :
    ((contents s).HasTable (model.withoutFields names) →
      backend.widenTable model names s = .ok () t → other.widenTable model names s' = .ok () t' →
      (contents s).Reshaped model (model.widen backend.now names) (contents t) ∧
        (contents t).Alike (contents' t')) ∧
    ((contents s).HasTable model →
      backend.narrowTable model (model.withoutFields names) names s = .ok () t →
      other.narrowTable model (model.withoutFields names) names s' = .ok () t' →
      (contents s).Reshaped (model.withoutFields names) (model.narrow names) (contents t) ∧
        (contents t).Alike (contents' t')) := by
  constructor
  · intro htable hwiden hwiden'
    obtain ⟨fields, statements, hpicks, hindexes, hruns⟩ := runs_of_widenTable hwiden
    obtain ⟨fields', statements', hpicks', hindexes', hruns'⟩ := runs_of_widenTable hwiden'
    have hreshaped := (Runs.of_backend hkeeps hruns).widened hsound hm hless hkey htable hpicks
      hindexes
    have hreshaped' := (Runs.of_backend hkeeps' hruns').widened (hstart ▸ hsound) hm hless hkey
      (hstart ▸ htable) hpicks' hindexes'
    rw [hstart, hnow] at hreshaped'
    exact ⟨hreshaped, hreshaped.alike hreshaped'⟩
  · intro htable hnarrow hnarrow'
    obtain ⟨columns, statements, hdropped, hindexes, hruns⟩ := runs_of_narrowTable hnarrow
    obtain ⟨columns', statements', hdropped', hindexes', hruns'⟩ := runs_of_narrowTable hnarrow'
    have hreshaped := (Runs.of_backend hkeeps hruns).narrowed hsound hm hless htable hdropped
      hindexes
    have hreshaped' := (Runs.of_backend hkeeps' hruns').narrowed (hstart ▸ hsound) hm hless
      (hstart ▸ htable) hdropped' hindexes'
    rw [hstart] at hreshaped'
    exact ⟨hreshaped, hreshaped.alike hreshaped'⟩

/-! ### Notes with a rank and a label -/

/-- The notes with a number that must be there and a label that need not. -/
def labelledModel : Model where
  app := "notes"
  name := "Note"
  table := "note"
  key := "id"
  fields := Operation.noteModel.fields ++
    [("rank", { Field.ofKind .integer with default := some (.int 3) }),
      ("label", { Field.ofKind .text with null := true, column := some "tag" })]
  indexes := []

def noteRecord (id : Int64) (text : String) : Record :=
  Record.assign [("id", .int id), ("text", .text text)] fun _ => none

/-- The same note with a rank and a label. -/
def labelledRecord (id : Int64) (text : String) : Record :=
  Record.assign [("id", .int id), ("text", .text text), ("rank", .int 3), ("tag", .text "new")]
    fun _ => none

/-- What the notes of a database hold in their columns. -/
def noteValues (db : Database) : List (List (Option Value)) :=
  (db.rows "note").map fun record => ["id", "text", "rank", "tag"].map record

/-- Two notes in the table of a model. -/
def twoNotes (model : Model) (record : Int64 → String → Record) : Database where
  catalog := Catalog.empty.put "note" model.tableColumns fun _ => none
  rows table := if table = "note" then [record 1 "first", record 2 "second"] else []

theorem sound_twoNotes {model : Model} {record : Int64 → String → Record}
    (hcolumns : model.columns.Nodup)
    (hrecord : ∀ id text, (record id text).Fits model.tableColumns) :
    (twoNotes model record).Sound := by
  have htables : ∀ table columns, (twoNotes model record).catalog.tables table = some columns →
      table = "note" ∧ columns = model.tableColumns := by
    intro table columns h
    by_cases htable : table = "note"
    · subst htable
      cases h
      exact ⟨rfl, rfl⟩
    · rw [twoNotes, Catalog.tables_put_ne htable] at h
      cases h
  refine ⟨?_, fun table columns h => ?_, fun table h => ?_, fun table columns h => ?_⟩
  · have hput : (Catalog.empty.put "note" model.tableColumns fun _ => none).Sound :=
      Catalog.sound_empty.put
    exact hput
  · rwa [(htables _ _ h).2, AppSchema.names_tableColumns]
  · refine if_neg ?_
    rintro rfl
    cases h
  · obtain ⟨rfl, rfl⟩ := htables _ _ h
    simpa [twoNotes] using ⟨hrecord 1 "first", hrecord 2 "second"⟩

theorem hasTable_twoNotes {model : Model} {record : Int64 → String → Record}
    (htable : model.table = "note") (hindexes : model.indexes = []) :
    (twoNotes model record).HasTable model := by
  refine ⟨⟨model.tableColumns, ?_, List.Perm.refl _⟩, fun index covered => ?_⟩
  · rw [htable]
    rfl
  · have hnone : model.indexMap index = none := by
      rw [Model.indexMap, hindexes]
      rfl
    rw [hnone]
    constructor
    · intro h
      cases h
    · intro h
      cases h

/-- SQLite builds the table of the notes anew and PostgreSQL changes it in place, once to add the
rank and the label and once to remove them. -/
theorem labelled_notes_alike : ∃ added added' dropped dropped' : Database,
    (Database.backend (fun _ _ _ => .unknown) .sqlite Operation.noteMoment).widenTable
        labelledModel ["rank", "label"] (twoNotes Operation.noteModel noteRecord) = .ok () added ∧
      (Database.backend (fun _ _ _ => .unknown) .postgres Operation.noteMoment).widenTable
        labelledModel ["rank", "label"] (twoNotes Operation.noteModel noteRecord)
          = .ok () added' ∧
      added.Alike added' ∧
      noteValues added = [[some (.int 1), some (.text "first"), some (.int 3), some .null],
        [some (.int 2), some (.text "second"), some (.int 3), some .null]] ∧
      (Database.backend (fun _ _ _ => .unknown) .sqlite Operation.noteMoment).narrowTable
        labelledModel Operation.noteModel ["rank", "label"]
          (twoNotes labelledModel labelledRecord) = .ok () dropped ∧
      (Database.backend (fun _ _ _ => .unknown) .postgres Operation.noteMoment).narrowTable
        labelledModel Operation.noteModel ["rank", "label"]
          (twoNotes labelledModel labelledRecord) = .ok () dropped' ∧
      dropped.Alike dropped' ∧
      noteValues dropped = [[some (.int 1), some (.text "first"), none, none],
        [some (.int 2), some (.text "second"), none, none]] := by
  have hm : labelledModel.Sound := ⟨by decide, Named.ordered_nil, nofun⟩
  have hless : (labelledModel.withoutFields ["rank", "label"]).Sound :=
    ⟨by decide, Named.ordered_nil, nofun⟩
  have hnotes : (twoNotes Operation.noteModel noteRecord).Sound := by
    refine sound_twoNotes (by decide) fun id text column => ?_
    simp [noteRecord, Record.assign_ne_none_iff, AppSchema.names_tableColumns, Model.columns,
      Operation.noteModel, Field.columnName, Field.ofKind]
  have hlabelled : (twoNotes labelledModel labelledRecord).Sound := by
    refine sound_twoNotes (by decide) fun id text column => ?_
    simp [labelledRecord, Record.assign_ne_none_iff, AppSchema.names_tableColumns, Model.columns,
      labelledModel, Operation.noteModel, Field.columnName, Field.ofKind]
  have hadd := (same_table_in_place_or_anew
    (Database.keeps_backend (fun _ _ _ => .unknown) .sqlite Operation.noteMoment)
    (Database.keeps_backend (fun _ _ _ => .unknown) .postgres Operation.noteMoment) rfl hm hless
    (by decide) hnotes rfl).1 (hasTable_twoNotes rfl rfl) rfl rfl
  have hdrop := (same_table_in_place_or_anew
    (Database.keeps_backend (fun _ _ _ => .unknown) .sqlite Operation.noteMoment)
    (Database.keeps_backend (fun _ _ _ => .unknown) .postgres Operation.noteMoment) rfl hm hless
    (by decide) hlabelled rfl).2 (hasTable_twoNotes rfl rfl) rfl rfl
  refine ⟨_, _, _, _, rfl, rfl, hadd.2, rfl, rfl, rfl, hdrop.2, rfl⟩

end Backend

end SchemaHistory
