import SchemaHistory.Proofs.AllowedStatements
import SchemaHistory.Proofs.RoundTrip

/-!
# Operations that a catalog allows

A change to a table that finds the fields it names goes through where its statements do
(`Backend.widenTable_of_runs`, `Backend.narrowTable_of_runs`). So an operation on the database that
consists of the catalog of a state goes through exactly if the state it leads to is one that a
database can hold and the name of the shadow is free where a table is built anew
(`Operation.forward_ok_iff`).
-/

namespace SchemaHistory

namespace Backend

variable {σ α : Type} {backend : Backend σ} {model old new : Model} {s t : σ}
  {statement : Statement} {first rest statements : List Statement}

/-! ### Statements and programs -/

/-- Statements that run one after the other run up to any point and from there on. -/
theorem Runs.split (h : backend.Runs (first ++ rest) s t) :
    ∃ u, backend.Runs first s u ∧ backend.Runs rest u t := by
  induction first generalizing s with
  | nil => exact ⟨s, .nil s, h⟩
  | cons statement first ih =>
      cases h with
      | cons count hexecute hruns =>
          obtain ⟨u, hfirst, hrest⟩ := ih hruns
          exact ⟨u, .cons count hexecute hfirst, hrest⟩

theorem Runs.split_cons (h : backend.Runs (statement :: rest) s t) :
    ∃ u, backend.Runs [statement] s u ∧ backend.Runs rest u t := by
  cases h with
  | cons count hexecute hruns => exact ⟨_, .cons count hexecute (.nil _), hruns⟩

theorem run_of_runs (h : backend.Runs [statement] s t) : backend.run statement s = .ok () t := by
  cases h with
  | cons count hexecute hnil =>
      cases hnil
      exact bind_eq_ok.mpr ⟨count, t, hexecute, rfl⟩

/-- A loop over actions that go through where their statements do. -/
theorem forM_of_runs {f : α → Session σ Unit} {xs : List α}
    (hf : List.Forall₂ (fun x statement => ∀ s t, backend.Runs [statement] s t → f x s = .ok () t)
      xs statements)
    (h : backend.Runs statements s t) : xs.forM f s = .ok () t := by
  induction hf generalizing s with
  | nil =>
      cases h
      exact forM_nil_eq_ok.mpr rfl
  | @cons x statement xs statements hx _ ih =>
      obtain ⟨u, hone, hall⟩ := Runs.split_cons h
      exact forM_cons_eq_ok.mpr ⟨u, hx s u hone, ih hall⟩

theorem createIndex_of_runs {index : String}
    (hstatement : indexStatement model index = .ok statement)
    (h : backend.Runs [statement] s t) : backend.createIndex model index s = .ok () t :=
  bind_eq_ok.mpr ⟨statement, s, Session.ofExcept_eq_ok.mpr ⟨hstatement, rfl⟩, run_of_runs h⟩

theorem createIndexes_of_runs {names : List String}
    (hindexes : names.mapM (indexStatement model) = .ok statements)
    (h : backend.Runs statements s t) : names.forM (backend.createIndex model) s = .ok () t :=
  forM_of_runs ((Except.mapM_eq_ok.mp hindexes).imp fun _ _ hstatement _ _ =>
    createIndex_of_runs hstatement) h

/-- Building a table anew goes well if its statements do, and the statements for the indexes can be
told. -/
theorem renewTable_of_runs {columns : List String}
    (hindexes : model.indexes.names.mapM (indexStatement model) = .ok statements)
    (h : backend.Runs (renewal model columns statements) s t) :
    backend.renewTable model columns s = .ok () t := by
  obtain ⟨s₄, hbare, hindexed⟩ := h.split
  obtain ⟨s₁, hcreate, hbare⟩ := Runs.split_cons hbare
  obtain ⟨s₂, hcopy, hbare⟩ := Runs.split_cons hbare
  obtain ⟨s₃, hdrop, hrename⟩ := Runs.split_cons hbare
  exact bind_eq_ok.mpr ⟨(), s₁, run_of_runs hcreate, bind_eq_ok.mpr ⟨(), s₂, run_of_runs hcopy,
    bind_eq_ok.mpr ⟨(), s₃, run_of_runs hdrop, bind_eq_ok.mpr ⟨(), s₄, run_of_runs hrename,
      createIndexes_of_runs hindexes hindexed⟩⟩⟩⟩

/-! ### Adding columns -/

/-- A column is added if the statement for it runs and there is something to fill it with. -/
theorem addColumn_of_runs {adding : Adding} {name : String} {field : Field}
    (hfield : model.field? name = some field) (hfill : CanFill backend.now field)
    (h : backend.Runs [addition backend.dialect.capabilities.altersNullability model.table
      (name, field)] s t) :
    backend.addColumn model adding name s
      = .ok (adding.add backend.dialect.capabilities.altersNullability backend.now (name, field))
        t := by
  unfold addColumn
  simp only [hfield]
  cases hnull : field.null with
  | true =>
      refine bind_eq_ok.mpr ⟨adding, s, rfl, bind_eq_ok.mpr ⟨(), t, run_of_runs h, ?_⟩⟩
      simp [Adding.add, hnull]
  | false =>
      obtain ⟨value, hvalue⟩ := hfill.resolve_left (by simp [hnull])
      simp only [hvalue]
      refine bind_eq_ok.mpr ⟨_, s, rfl, bind_eq_ok.mpr ⟨(), t, run_of_runs h, ?_⟩⟩
      simp [Adding.add, hnull, hvalue]

/-- Round by round: the columns and the values to fill in are collected as the fields come. -/
theorem addColumns_of_runs {start : Adding} {fields : Fields}
    (hfield : ∀ entry ∈ fields, model.field? entry.1 = some entry.2)
    (hfill : ∀ entry ∈ fields, CanFill backend.now entry.2)
    (h : backend.Runs (fields.map
      (addition backend.dialect.capabilities.altersNullability model.table)) s t) :
    fields.names.foldlM (backend.addColumn model) start s = .ok (fields.foldl
      (Adding.add backend.dialect.capabilities.altersNullability backend.now) start) t := by
  induction fields generalizing start s with
  | nil =>
      cases h
      rfl
  | cons entry fields ih =>
      obtain ⟨hentry, hfield⟩ := List.forall_mem_cons.mp hfield
      obtain ⟨hfirst, hfill⟩ := List.forall_mem_cons.mp hfill
      obtain ⟨u, hone, hall⟩ := Runs.split_cons h
      rw [Named.names_cons, List.foldlM_cons]
      exact bind_eq_ok.mpr ⟨_, u, addColumn_of_runs hentry hfirst hone, ih hfield hfill hall⟩

theorem fill_of_runs {fill : Row} (h : backend.Runs (filling model fill) s t) :
    ∃ count, backend.update model fill .empty s = .ok count t := by
  unfold filling at h
  unfold update
  cases hvalues : updateValues model fill with
  | nil =>
      rw [hvalues] at h
      cases h
      exact ⟨0, rfl⟩
  | cons head tail =>
      rw [hvalues] at h
      cases h with
      | cons count hexecute hnil =>
          cases hnil
          exact ⟨count, bind_eq_ok.mpr ⟨.empty, s, rfl, hexecute⟩⟩

theorem setNotNulls_of_runs {columns : List String}
    (h : backend.Runs (columns.map (.setNotNull model.table)) s t) :
    columns.forM (fun column => backend.run (.setNotNull model.table column)) s = .ok () t := by
  refine forM_of_runs ?_ h
  rw [List.forall₂_map_right_iff]
  exact List.forall₂_same.mpr fun _ _ _ _ => run_of_runs

/-- Adding columns goes well if the statements for it run, whether the table is built anew or
not. -/
theorem widenTable_of_runs {fields : Fields}
    (hfield : ∀ entry ∈ fields, model.field? entry.1 = some entry.2)
    (hfill : ∀ entry ∈ fields, CanFill backend.now entry.2)
    (hindexes : model.indexes.names.mapM (indexStatement model) = .ok statements)
    (h : backend.Runs (widening backend.dialect.capabilities.altersNullability backend.now model
      fields statements) s t) :
    backend.widenTable model fields.names s = .ok () t := by
  simp only [widening] at h
  obtain ⟨v, hadded, htightened⟩ := h.split
  obtain ⟨u, hadded, hfilled⟩ := hadded.split
  refine bind_eq_ok.mpr ⟨_, u, addColumns_of_runs hfield hfill hadded, ?_⟩
  set adding := fields.foldl
    (Adding.add backend.dialect.capabilities.altersNullability backend.now) {}
  -- what comes after the filling is the same whether there was something to fill or not
  have hrest : (if adding.rebuild = true then backend.renewTable model model.columns
      else if backend.dialect.capabilities.altersNullability = true then
        adding.notNull.forM fun column => backend.run (.setNotNull model.table column)
      else pure ()) v = .ok () t := by
    unfold tightening at htightened
    split
    · next hrebuild =>
        rw [if_pos hrebuild] at htightened
        exact renewTable_of_runs hindexes htightened
    · next hrebuild =>
        rw [if_neg hrebuild] at htightened
        split
        · next hplace =>
            rw [if_pos hplace] at htightened
            exact setNotNulls_of_runs htightened
        · next hplace =>
            rw [if_neg hplace] at htightened
            cases htightened
            rfl
  split
  · obtain ⟨count, hupdate⟩ := fill_of_runs hfilled
    exact bind_eq_ok.mpr ⟨count, v, hupdate, hrest⟩
  · next hempty =>
      rw [filling_of_isEmpty (by simpa using hempty)] at hfilled
      cases hfilled
      exact hrest

/-! ### Dropping columns -/

theorem dropColumns_of_runs {names columns : List String}
    (hcolumns : names.mapM old.column = .ok columns)
    (h : backend.Runs (columns.map (.dropColumn old.table)) s t) :
    names.forM (backend.dropColumn old) s = .ok () t := by
  refine forM_of_runs ?_ h
  rw [List.forall₂_map_right_iff]
  refine (Except.mapM_eq_ok.mp hcolumns).imp fun name column hcolumn s t hrun => ?_
  exact bind_eq_ok.mpr ⟨column, s, Session.ofExcept_eq_ok.mpr ⟨hcolumn, rfl⟩, run_of_runs hrun⟩

/-- Dropping columns goes well if the statements for it run. -/
theorem narrowTable_of_runs {names columns : List String}
    (hcolumns : names.mapM old.column = .ok columns)
    (hindexes : new.indexes.names.mapM (indexStatement new) = .ok statements)
    (h : backend.Runs (narrowing backend.dialect.capabilities.dropsColumns old new
      columns statements)
      s t) : backend.narrowTable old new names s = .ok () t := by
  unfold narrowing at h
  unfold narrowTable
  split
  · next hplace =>
      rw [if_pos hplace] at h
      exact dropColumns_of_runs hcolumns h
  · next hplace =>
      rw [if_neg hplace] at h
      exact bind_eq_ok.mpr ⟨columns, s, Session.ofExcept_eq_ok.mpr ⟨hcolumns, rfl⟩,
        renewTable_of_runs hindexes h⟩

end Backend

/-- The catalog refuses no statement that it can carry out. -/
theorem Catalog.runs_backend {dialect : Dialect} {now : DateTime} {statements : List Statement}
    {db db' : Catalog} (h : db.executeAll statements = some db') :
    (Catalog.backend dialect now).Runs statements db db' := by
  induction statements generalizing db with
  | nil =>
      cases h
      exact .nil _
  | cons statement rest ih =>
      rw [executeAll_cons, Option.bind_eq_some_iff] at h
      obtain ⟨next, hnext, h⟩ := h
      have hexecute : (Catalog.backend dialect now).execute statement db = .ok 0 next := by
        unfold Catalog.backend
        dsimp only
        rw [hnext]
      exact .cons 0 hexecute (ih h)

/-! ### What the checks find -/

namespace Model

open Backend

variable {m : Model} {index : String} {names : List String}

/-- Fields that a model has have columns. -/
theorem exists_columns (hnames : ∀ name ∈ names, name ∈ m.fields.names) :
    ∃ columns, names.mapM m.column = .ok columns := by
  cases hcolumns : names.mapM m.column with
  | ok columns => exact ⟨columns, rfl⟩
  | error e =>
      obtain ⟨name, hname, hfails⟩ := Except.exists_of_mapM_eq_error hcolumns
      obtain ⟨field, hfield⟩ := Named.mem_names_iff.mp (hnames name hname)
      rw [column, field?, hfield] at hfails
      cases hfails

/-- The indexes of a sound model have statements. -/
theorem Sound.exists_indexStatement (hm : m.Sound) (hindex : index ∈ m.indexes.names) :
    ∃ statement, indexStatement m index = .ok statement := by
  obtain ⟨fields, hfields⟩ := Named.mem_names_iff.mp hindex
  obtain ⟨columns, hcolumns⟩ := exists_columns (hm.indexed index fields hfields)
  refine ⟨.createIndex index m.table columns, ?_⟩
  unfold indexStatement
  rw [hfields]
  exact Except.bind_eq_ok.mpr ⟨columns, hcolumns, rfl⟩

/-- The indexes of a sound model are over fields that it has, so each has a statement. -/
theorem Sound.exists_indexStatements (hm : m.Sound) :
    ∃ statements, m.indexes.names.mapM (indexStatement m) = .ok statements := by
  cases hstatements : m.indexes.names.mapM (indexStatement m) with
  | ok statements => exact ⟨statements, rfl⟩
  | error e =>
      obtain ⟨index, hindex, hfails⟩ := Except.exists_of_mapM_eq_error hstatements
      obtain ⟨statement, hstatement⟩ := hm.exists_indexStatement hindex
      rw [hstatement] at hfails
      cases hfails

/-- Indexes are over columns of the table. -/
theorem mem_of_indexMap {covered : List String} (h : m.indexMap index = some covered) :
    ∀ column ∈ covered, column ∈ m.tableColumns.map (·.name) := by
  intro column hcolumn
  obtain ⟨fields, -, rfl⟩ := Option.map_eq_some_iff.mp h
  obtain ⟨name, -, field, hfield, rfl⟩ := mem_columnsOf.mp hcolumn
  rw [AppSchema.names_tableColumns]
  exact List.mem_map.mpr ⟨(name, field), Named.mem_of_get? hfield, rfl⟩

theorem nodup_columnsOf (hcolumns : m.columns.Nodup) (hnames : names.Nodup) :
    (m.columnsOf names).Nodup := by
  refine hnames.filterMap fun name name' column hname hname' => ?_
  obtain ⟨field, hfield, heq⟩ := Option.map_eq_some_iff.mp hname
  obtain ⟨field', hfield', heq'⟩ := Option.map_eq_some_iff.mp hname'
  exact congrArg Prod.fst (eq_of_columnName_eq (x := (name, field)) (y := (name', field')) hcolumns
    hfield hfield' (heq.trans heq'.symm))

end Model

/-! ### Each kind of operation -/

namespace AppSchema

variable {s : AppSchema} {m : Model} {table : String}

/-- The table of a model beside the others, in the catalog of a state. -/
theorem Separate.exists_rest (hsep : s.Separate) (hs : s.models.Ordered)
    (hm : s.model? m.name = some m) :
    ∃ rest : Catalog, s.catalog = rest.put m.table m.tableColumns m.indexMap ∧
      rest.Fits m.table m.indexMap ∧ rest = (s.withoutModel m.name).catalog :=
  ⟨_, catalog_eq_put hs hsep hm, (fits_withoutModel hs).mpr fun _ _ hm' hne =>
    hsep.apart _ _ _ _ hm' hm hne.symm, rfl⟩

end AppSchema

namespace Operation

/-- The fields that the operation adds can be added to tables that have rows. -/
def CanFill (now : DateTime) : Operation → Prop
  | addFields _ fields => ∀ entry ∈ fields, Backend.CanFill now entry.2
  | _ => True

/-- Whether a table is built anew for the operation. -/
def renews (capabilities : Capabilities) : Operation → Bool
  | addFields _ fields => fields.any fun entry =>
      !capabilities.altersNullability && (!entry.2.null || entry.2.unique)
  | removeFields .. => !capabilities.dropsColumns
  | _ => false

/-- If the table is built anew for the operation, the name of its shadow is free. -/
def HasRoom (capabilities : Capabilities) (s : AppSchema) (operation : Operation) : Prop :=
  operation.renews capabilities = true → ∀ m, s.model? operation.model = some m →
    ¬s.HasTable (Backend.shadowName m.table)

open Backend Catalog AppSchema

variable {dialect : Dialect} {now : DateTime} {operation : Operation} {before after : AppSchema}
  {m m' : Model} {name index : String}

/-- An operation that does not build its table anew needs no shadow table. -/
theorem hasRoom_of_not_renews {capabilities : Capabilities}
    (h : operation.renews capabilities = false) : operation.HasRoom capabilities before := by
  intro hrenews
  rw [h] at hrenews
  cases hrenews

theorem require_bind {σ α : Type} {s : AppSchema} {work : Model → Work σ α}
    (hm : s.model? name = some m) : (Work.ofExcept (s.require name) >>= work) = work m := by
  rw [require_eq_ok.mpr hm]
  rfl

/-- A model is created where its table and its indexes keep apart from the others. -/
theorem exists_createModel {table : Option String} {fields : Fields} (hs : before.Sound)
    (hnone : before.model? m.name = none) (hafter : (before.withModel m).Separate) :
    ∃ db, (createModel m.name table fields).forward (Catalog.backend dialect now)
      ⟨before, before.withModel m⟩ before.catalog = .ok () db := by
  have hself : (before.withModel m).model? m.name = some m := model?_withModel_self
  have htable : before.catalog.tables m.table = none := by
    rw [tables_catalog_eq_none hs.ordered]
    rintro ⟨name, other, hother, htable⟩
    have hne : m.name ≠ name := by
      rintro rfl
      rw [hnone] at hother
      cases hother
    have hother' : (before.withModel m).model? name = some other := by
      rw [model?_withModel, if_neg hne]
      exact hother
    exact (hafter.apart _ _ _ _ hself hother' hne).1 htable.symm
  have hcolumns : (m.tableColumns.map (·.name)).Nodup := by
    rw [names_tableColumns]
    exact hafter.columns _ _ hself
  have hexec : before.catalog.executeAll [.create m false]
      = some (before.catalog.put m.table m.tableColumns fun _ => none) := by
    rw [executeAll_cons, Statement.create, execute_createTable_eq htable hcolumns]
    rfl
  refine ⟨before.catalog.put m.table m.tableColumns fun _ => none, ?_⟩
  unfold forward
  dsimp only
  rw [require_bind hself]
  exact Session.toWork_eq_ok.mpr (run_of_runs (runs_backend hexec))

/-- A model that is there can be deleted. -/
theorem exists_deleteModel (hs : before.Sound) (hsep : before.Separate)
    (hm : before.model? m.name = some m) :
    ∃ db, (deleteModel m.name).forward (Catalog.backend dialect now)
      ⟨before, before.withoutModel m.name⟩ before.catalog = .ok () db := by
  obtain ⟨rest, heq, hfits, -⟩ := hsep.exists_rest hs.ordered hm
  have hexec : before.catalog.executeAll [.dropTable m.table] = some rest := by
    rw [heq, executeAll_cons, execute_dropTable hfits]
    rfl
  refine ⟨rest, ?_⟩
  unfold forward
  dsimp only
  rw [require_bind hm]
  exact Session.toWork_eq_ok.mpr (run_of_runs (runs_backend hexec))

/-- Whether the table is built anew for columns that are added. -/
theorem rebuild_eq {model : String} {fields : Fields} {capabilities : Capabilities} :
    (fields.foldl (Adding.add capabilities.altersNullability now) {}).rebuild
      = (addFields model fields).renews capabilities := by
  rw [(foldl_add capabilities.altersNullability now fields {}).2, Bool.false_or]
  rfl

/-- What is left of a catalog without a table has room where the catalog has. -/
theorem tables_rest {rest : Catalog} {columns : List Column} {indexes : IndexMap}
    (h : (rest.put m.table columns indexes).tables (shadowName m.table) = none) :
    rest.tables (shadowName m.table) = none := by
  rw [tables_put_ne (shadowName_ne m.table)] at h
  exact h

/-- Adding fields leaves the indexes over the same columns. -/
theorem indexMap_of_addFields {fields : Fields} (hm : m.Sound) (hm' : m'.Sound)
    (hapart : List.Disjoint m.fields.names fields.names)
    (heq : m' = { m with fields := m.fields ++ fields }) : m'.indexMap = m.indexMap := by
  obtain ⟨hwithout, hfree⟩ := withoutFields_of_addFields hm hapart heq
  rw [← Model.indexMap_withoutFields hm' hfree, hwithout]

/-- New fields can be added if a shadow table has room, where one is needed. -/
theorem exists_addFields {fields : Fields} (hs : before.Sound) (hsep : before.Separate)
    (hm : before.model? m.name = some m) (hm' : m'.Sound)
    (hapart : List.Disjoint m.fields.names fields.names)
    (heq : m' = { m with fields := m.fields ++ fields })
    (hafter : (before.withModel m').Separate)
    (hfill : (addFields m.name fields).CanFill now)
    (hroom : (addFields m.name fields).HasRoom dialect.capabilities before) :
    ∃ db, (addFields m.name fields).forward (Catalog.backend dialect now)
      ⟨before, before.withModel m'⟩ before.catalog = .ok () db := by
  have hself : (before.withModel m').model? m.name = some m' := by
    rw [model?_withModel, heq, if_pos rfl]
  have htable : m'.table = m.table := by rw [heq]
  have hmap : m'.indexMap = m.indexMap := indexMap_of_addFields (hs.model _ _ hm) hm' hapart heq
  have hcolumns : m'.columns.Nodup := hafter.columns _ _ hself
  have hall : m'.tableColumns = m.tableColumns ++ fields.map Column.ofEntry := by
    rw [heq]
    exact List.map_append
  obtain ⟨rest, hcatalog, hfits, -⟩ := hsep.exists_rest hs.ordered hm
  obtain ⟨statements, hindexes⟩ := hm'.exists_indexStatements
  have hshadow : (fields.foldl (Adding.add dialect.capabilities.altersNullability now) {}).rebuild
      = true → rest.tables (shadowName m'.table) = none := by
    intro hrebuild
    rw [rebuild_eq] at hrebuild
    have hfree := (tables_catalog_eq_none hs.ordered).mpr (hroom hrebuild m hm)
    rw [hcatalog] at hfree
    rw [htable]
    exact tables_rest hfree
  rw [← htable, ← hmap] at hfits hcatalog
  have hnames : ((m.tableColumns ++ fields.map Column.ofEntry).map (·.name)).Nodup := by
    rw [← hall, names_tableColumns]
    exact hcolumns
  obtain ⟨db, hexec⟩ := exists_widening hfits hnames hshadow hcolumns hm'.indexes.nodup_names
    (fun _ _ => Model.mem_of_indexMap) hindexes
  refine ⟨db, ?_⟩
  rw [hcatalog]
  unfold forward
  dsimp only
  rw [require_bind hself]
  refine Session.toWork_eq_ok.mpr (widenTable_of_runs ?_ hfill hindexes (runs_backend hexec))
  intro entry hentry
  refine Named.get?_of_mem hm'.fields ?_
  rw [heq]
  exact List.mem_append_right _ hentry

/-- Fields that no index covers can be removed, under the same condition. -/
theorem exists_removeFields {names : List String} (hs : before.Sound) (hsep : before.Separate)
    (hm : before.model? m.name = some m) (hnames : names.Nodup)
    (hmem : ∀ name ∈ names, name ∈ m.fields.names)
    (hfree : ∀ name ∈ names, m.isIndexed name = false) (hm' : (m.withoutFields names).Sound)
    (hroom : (removeFields m.name names).HasRoom dialect.capabilities before) :
    ∃ db, (removeFields m.name names).forward (Catalog.backend dialect now)
      ⟨before, before.withModel (m.withoutFields names)⟩ before.catalog = .ok () db := by
  have hself : (before.withModel (m.withoutFields names)).model? m.name
      = some (m.withoutFields names) :=
    model?_withModel_self
  have hsound := hs.model _ _ hm
  have hmap := Model.indexMap_withoutFields hsound hfree
  have hcolumns : m.columns.Nodup := hsep.columns _ _ hm
  have hcolumns' : (m.withoutFields names).columns.Nodup :=
    hcolumns.sublist (List.filter_sublist.map _)
  obtain ⟨rest, hcatalog, hfits, -⟩ := hsep.exists_rest hs.ordered hm
  obtain ⟨statements, hindexes⟩ := hm'.exists_indexStatements
  obtain ⟨columns, hdropped⟩ := Model.exists_columns hmem
  have hcovered := Model.columnsOf_eq hdropped
  have hshadow : dialect.capabilities.dropsColumns = false →
      rest.tables (shadowName m.table) = none := by
    intro hplace
    have hfree := (tables_catalog_eq_none hs.ordered).mpr
      (hroom (by rw [renews, hplace]; rfl) m hm)
    rw [hcatalog] at hfree
    exact tables_rest hfree
  rw [← hmap] at hfits hcatalog
  have hthere : ∀ column ∈ columns, column ∈ m.tableColumns.map (·.name) := by
    intro column hcolumn
    rw [← hcovered] at hcolumn
    obtain ⟨name, -, field, hfield, rfl⟩ := Model.mem_columnsOf.mp hcolumn
    rw [names_tableColumns]
    exact List.mem_map.mpr ⟨(name, field), Named.mem_of_get? hfield, rfl⟩
  have hover : ∀ i covered, (m.withoutFields names).indexMap i = some covered →
      ∀ column ∈ columns, column ∉ covered := by
    intro i covered hi
    rw [← hcovered]
    exact Model.not_mem_indexMap hcolumns hfree (hmap ▸ hi)
  obtain ⟨db, hexec⟩ := exists_narrowing rfl hfits
    (hcovered ▸ Model.nodup_columnsOf hcolumns hnames) hover hthere hshadow hcolumns'
    hm'.indexes.nodup_names (fun _ _ => Model.mem_of_indexMap) hindexes
  refine ⟨db, ?_⟩
  rw [hcatalog]
  unfold forward
  dsimp only
  rw [require_bind hm, require_bind hself]
  exact Session.toWork_eq_ok.mpr (narrowTable_of_runs hdropped hindexes (runs_backend hexec))

/-- An index can be added if its name is not taken by another table. -/
theorem exists_addIndex {fields : List String} (hs : before.Sound) (hsep : before.Separate)
    (hm : before.model? m.name = some m) (hnone : m.indexes.get? index = none) (hm' : m'.Sound)
    (heq : m' = { m with indexes := m.indexes.insert index fields })
    (hafter : (before.withModel m').Separate) :
    ∃ db, (addIndex m.name index fields).forward (Catalog.backend dialect now)
      ⟨before, before.withModel m'⟩ before.catalog = .ok () db := by
  have hself : (before.withModel m').model? m.name = some m' := by
    rw [model?_withModel, heq, if_pos rfl]
  have hindex : index ∈ m'.indexes.names := by
    rw [heq]
    exact Named.mem_names_iff.mpr ⟨fields, Named.get?_insert_self⟩
  obtain ⟨statement, hstatement⟩ := hm'.exists_indexStatement hindex
  obtain ⟨covered, hcovered, rfl⟩ := indexStatement_eq_ok hstatement
  obtain ⟨rest, hcatalog, -, hrest⟩ := hsep.exists_rest hs.ordered hm
  have hfits : (before.withoutModel m.name).catalog.Fits m'.table m'.indexMap := by
    refine (fits_withoutModel hs.ordered).mpr fun name other hother hne => ?_
    have hother' : (before.withModel m').model? name = some other := by
      rw [model?_withModel, heq, if_neg hne]
      exact hother
    exact hafter.apart _ _ _ _ hother' hself hne.symm
  have hfree : rest.indexes index = none := by
    rw [hrest]
    exact hfits.indexes index (by rw [hcovered]; exact Option.some_ne_none _)
  have hnew : m.indexMap index = none := by
    rw [Model.indexMap, hnone]
    rfl
  have hover : ∀ column ∈ covered, column ∈ m.tableColumns.map (·.name) := by
    have hcolumns : m'.tableColumns = m.tableColumns := by rw [heq]; rfl
    rw [← hcolumns]
    exact Model.mem_of_indexMap hcovered
  have hexec : before.catalog.executeAll [.createIndex index m'.table covered]
      = some (rest.put m.table m.tableColumns
        fun i => if i = index then some covered else m.indexMap i) := by
    have htable : m'.table = m.table := by rw [heq]
    rw [hcatalog, executeAll_cons, htable, execute_createIndex_eq hfree hnew hover]
    rfl
  refine ⟨rest.put m.table m.tableColumns fun i => if i = index then some covered else m.indexMap i,
    ?_⟩
  unfold forward
  dsimp only
  rw [require_bind hself]
  exact Session.toWork_eq_ok.mpr (createIndex_of_runs hstatement (runs_backend hexec))

/-- An index that is there can be removed. -/
theorem exists_removeIndex (hs : before.Sound) (hsep : before.Separate)
    (hm : before.model? m.name = some m) (hindex : index ∈ m.indexes.names) :
    ∃ db, (removeIndex m.name index).forward (Catalog.backend dialect now) ⟨before, after⟩
      before.catalog = .ok () db := by
  obtain ⟨rest, hcatalog, hfits, -⟩ := hsep.exists_rest hs.ordered hm
  obtain ⟨covered, hcovered⟩ := Option.ne_none_iff_exists'.mp (indexMap_ne_none.mpr hindex)
  have hexec : before.catalog.executeAll [.dropIndex index] = some (rest.put m.table m.tableColumns
      fun i => if i = index then none else m.indexMap i) := by
    rw [hcatalog, executeAll_cons, execute_dropIndex hfits hcovered]
    rfl
  exact ⟨_, Session.toWork_eq_ok.mpr (run_of_runs (runs_backend hexec))⟩

/-! ### Where a table was built anew -/

/-- The other way round: where the fields were removed, there was room. -/
theorem hasRoom_of_removeFields {names : List String} {db : Catalog} (hs : before.Sound)
    (hm : before.model? m.name = some m)
    (h : (removeFields m.name names).forward (Catalog.backend dialect now)
      ⟨before, before.withModel (m.withoutFields names)⟩ before.catalog = .ok () db) :
    (removeFields m.name names).HasRoom dialect.capabilities before := by
  intro hrenews found hfound
  obtain rfl := Option.some.inj (hm.symm.trans hfound)
  have hself : (before.withModel (m.withoutFields names)).model? m.name
      = some (m.withoutFields names) :=
    model?_withModel_self
  have hrun := require_step hself (require_step hm h)
  obtain ⟨columns, statements, -, -, hruns⟩ :=
    runs_of_narrowTable (Session.toWork_eq_ok.mp hrun)
  have hexec := hruns.executeAll (Catalog.carries_backend dialect now)
  have hplace : (Catalog.backend dialect now).dialect.capabilities.dropsColumns = false := by
    rw [renews, Bool.not_eq_true'] at hrenews
    exact hrenews
  rw [narrowing, hplace, if_neg (by simp)] at hexec
  have hfree := tables_of_renewal hexec
  exact (tables_catalog_eq_none hs.ordered).mp hfree

/-- Where the fields were added, there was room. -/
theorem hasRoom_of_addFields {fields : Fields} {db : Catalog} (hs : before.Sound)
    (hsep : before.Separate) (hm : before.model? m.name = some m) (hm' : m'.Sound)
    (hapart : List.Disjoint m.fields.names fields.names)
    (heq : m' = { m with fields := m.fields ++ fields })
    (h : (addFields m.name fields).forward (Catalog.backend dialect now)
      ⟨before, before.withModel m'⟩ before.catalog = .ok () db) :
    (addFields m.name fields).HasRoom dialect.capabilities before := by
  intro hrenews found hfound
  obtain rfl := Option.some.inj (hm.symm.trans hfound)
  have hself : (before.withModel m').model? m.name = some m' := by
    rw [model?_withModel, heq, if_pos rfl]
  obtain ⟨picked, statements, hpicks, -, hruns⟩ :=
    runs_of_widenTable (Session.toWork_eq_ok.mp (require_step hself h))
  obtain rfl := eq_of_picks hm' heq hpicks
  have htable : m'.table = m.table := by rw [heq]
  have hmap : m'.indexMap = m.indexMap := indexMap_of_addFields (hs.model _ _ hm) hm' hapart heq
  obtain ⟨rest, hcatalog, -, -⟩ := hsep.exists_rest hs.ordered hm
  have hnames : (m.tableColumns.map (·.name)).Nodup := by
    rw [names_tableColumns]
    exact hsep.columns _ _ hm
  have hexec := hruns.executeAll (Catalog.carries_backend dialect now)
  rw [id_eq, hcatalog, ← htable, ← hmap] at hexec
  have hroom := tables_of_widening hnames (rebuild_eq.trans hrenews) hexec
  rw [← tables_catalog_eq_none hs.ordered, hcatalog, tables_put_ne (shadowName_ne _), ← htable]
  exact hroom

/-! ### All operations -/

/-- An operation on a database with exactly the tables and indexes of a state goes through where the
state it leads to is one that a database can hold, and there is room to build a table anew if it is.
Otherwise the database refuses a statement. -/
theorem forward_ok_iff (hs : before.Sound) (happly : operation.Applies before after)
    (hafter : after.Sound) (hsep : before.Separate) (hfill : operation.CanFill now) :
    (∃ db, operation.forward (Catalog.backend dialect now) ⟨before, after⟩ before.catalog
      = .ok () db) ↔ after.Separate ∧ operation.HasRoom dialect.capabilities before := by
  constructor
  · rintro ⟨db, h⟩
    have hheld : before.Held Eq before.catalog := ⟨hsep, Like.refl likeness_eq _⟩
    have hseparate := (forward_held likeness_eq (carries_backend dialect now) hs happly hafter hheld
      h).1.separate
    refine ⟨hseparate, ?_⟩
    cases happly with
    | createModel => exact hasRoom_of_not_renews rfl
    | deleteModel => exact hasRoom_of_not_renews rfl
    | @change operation m m' hm hchange =>
        have hm' : m'.Sound := hafter.model m'.name m' model?_withModel_self
        cases hchange with
        | addFields _ hapart => exact hasRoom_of_addFields hs hsep hm hm' hapart rfl h
        | removeFields => exact hasRoom_of_removeFields hs hm h
        | addIndex => exact hasRoom_of_not_renews rfl
        | removeIndex => exact hasRoom_of_not_renews rfl
  · rintro ⟨hseparate, hroom⟩
    cases happly with
    | @createModel name table fields m hnone hparts =>
        obtain ⟨key, -, rfl⟩ := Model.ofParts_eq_ok hparts
        exact exists_createModel hs hnone hseparate
    | @deleteModel name m hm =>
        obtain rfl := hs.name_eq name m hm
        exact exists_deleteModel hs hsep hm
    | @change operation m m' hm hchange =>
        have hm' : m'.Sound := hafter.model m'.name m' model?_withModel_self
        cases hchange with
        | addFields _ hapart =>
            exact exists_addFields hs hsep hm hm' hapart rfl hseparate hfill hroom
        | removeFields hnames hmem hfree =>
            exact exists_removeFields hs hsep hm hnames hmem hfree hm' hroom
        | addIndex hnone _ => exact exists_addIndex hs hsep hm hnone hm' rfl hseparate
        | removeIndex hindex => exact exists_removeIndex hs hsep hm hindex

end Operation

end SchemaHistory
