import SchemaHistory.Proofs.SchemaCatalog

/-!
# Operations on a database

A database that holds the state before an operation holds the state after it once the operation has
been carried out, and holds the state before it again once the operation has been undone. This is
`Operation.forward_held` and `Operation.backward_held`. They go by the six ways in which one table
is changed beside the others, which are shared by the two directions: what adding does forward,
removing does backward.
-/

namespace SchemaHistory

/-- What a database makes of its catalog by the statements that it does not refuse. -/
def Backend.Carries {σ : Type} (backend : Backend σ) (catalog : σ → Catalog) : Prop :=
  ∀ statement s count t, backend.execute statement s = .ok count t →
    (catalog s).execute statement = some (catalog t)

/-- The statements that run are executed on the tables, one by one. -/
theorem Backend.Runs.executeAll {σ : Type} {backend : Backend σ} {catalog : σ → Catalog}
    {statements : List Statement} {s t : σ} (hcarries : backend.Carries catalog)
    (h : backend.Runs statements s t) : (catalog s).executeAll statements = some (catalog t) := by
  induction h with
  | nil => rfl
  | cons count hexecute _ ih =>
      rw [Catalog.executeAll_cons, hcarries _ _ _ _ hexecute]
      exact ih

theorem Backend.Runs.execute {σ : Type} {backend : Backend σ} {catalog : σ → Catalog}
    {statement : Statement} {s t : σ} (hcarries : backend.Carries catalog)
    (h : backend.Runs [statement] s t) : (catalog s).execute statement = some (catalog t) := by
  cases h with
  | cons count hexecute hnil =>
      cases hnil
      exact hcarries _ _ _ _ hexecute

namespace AppSchema

open Backend Catalog

variable {R : List Column → List Column → Prop} {s : AppSchema} {m m' : Model} {name index : String}
  {db db' : Catalog} {statements : List Statement} {covered : List String}

/-! ### Six ways to change one table -/

/-- The table of a further model is created, with its indexes. -/
theorem Held.create (hR : Likeness R) (h : s.Held R db) (hs : s.models.Ordered)
    (hnone : s.model? m.name = none)
    (hindexes : m.indexes.names.mapM (indexStatement m) = .ok statements)
    (hexec : db.executeAll (.create m false :: statements) = some db') :
    (s.withModel m).Held R db' ∧ db.SameBut m.table db' := by
  have hsound : db.Sound := fun i index hi =>
    mt h.like.tables_eq_none.mp (sound_ofModels i index (h.like.indexes ▸ hi))
  rw [executeAll_cons, Option.bind_eq_some_iff] at hexec
  obtain ⟨created, hcreate, hexec⟩ := hexec
  obtain ⟨hnames, hroom, rfl⟩ := execute_createTable hsound hcreate
  obtain ⟨hfits, rfl⟩ := executeAll_allIndexes hroom hindexes hexec
  refine ⟨Held.withModel hs h.separate ?_ hfits (hR.refl _) (names_tableColumns ▸ hnames),
    fun other hother => tables_put_ne hother⟩
  rw [withoutModel_of_none hnone]
  exact h.like

/-- The table of a model is dropped, and its indexes with it. -/
theorem Held.drop (h : s.Held R db) (hs : s.models.Ordered) (hm : s.model? m.name = some m)
    (hexec : db.execute (.dropTable m.table) = some db') :
    (s.withoutModel m.name).Held R db' ∧ db.SameBut m.table db' := by
  obtain ⟨rest, columns, rfl, -, hlike, hfits⟩ := h.exists_rest hs hm
  rw [execute_dropTable hfits, Option.some.injEq] at hexec
  subst hexec
  exact ⟨⟨h.separate.withoutModel, hlike⟩, fun other hother => (tables_put_ne hother).symm⟩

/-- Columns are added to a table. -/
theorem Held.widen (hR : Likeness R) (h : s.Held R db) (hs : s.models.Ordered)
    (hm : s.model? m.name = some m) (hname : m'.name = m.name) (htable : m'.table = m.table)
    (hmap : m'.indexMap = m.indexMap) {inPlace : Bool} {now : DateTime} {fields : Fields}
    (hcolumns : ∀ columns, R columns m.tableColumns →
      R (columns ++ fields.map Column.ofEntry) m'.tableColumns)
    (hindexes : (fields.foldl (Adding.add inPlace now) {}).rebuild = true →
      m'.indexes.names.mapM (indexStatement m') = .ok statements)
    (hexec : db.executeAll (widening inPlace now m' fields statements) = some db') :
    (s.withModel m').Held R db' ∧ db.SameBut m.table db' := by
  refine h.change hR hs hm hname htable fun rest columns hfits hlike hnames hdb => ?_
  subst hdb
  rw [← htable, ← hmap] at hfits hexec
  obtain ⟨hall, after, hafter, rfl⟩ := executeAll_widening hfits hnames hindexes hexec
  refine ⟨hfits, ?_, after, ?_, rfl⟩
  · rw [← names_tableColumns, ← ((hR.perm (hcolumns columns hlike)).map _).nodup_iff]
    exact hall
  · rcases hafter with rfl | rfl
    · exact hcolumns columns hlike
    · exact hR.refl _

/-- Columns are dropped from a table. No index is over one of them. -/
theorem Held.narrow (hR : Likeness R) (h : s.Held R db) (hs : s.models.Ordered)
    (hm : s.model? m.name = some m) (hname : m'.name = m.name) (htable : m'.table = m.table)
    (hmap : m'.indexMap = m.indexMap) {inPlace : Bool} {names : List String}
    (hcolumns : m'.tableColumns = m.tableColumns.filter (·.name ∉ names))
    (hfree : ∀ i covered, m'.indexMap i = some covered → ∀ name ∈ names, name ∉ covered)
    (hindexes : inPlace = false → m'.indexes.names.mapM (indexStatement m') = .ok statements)
    (hexec : db.executeAll (narrowing inPlace m m' names statements) = some db') :
    (s.withModel m').Held R db' ∧ db.SameBut m.table db' := by
  refine h.change hR hs hm hname htable fun rest columns hfits hlike hnames hdb => ?_
  subst hdb
  rw [← htable, ← hmap] at hfits hexec
  obtain ⟨after, hafter, rfl⟩ := executeAll_narrowing htable.symm hfits hfree hindexes hexec
  refine ⟨hfits, ?_, after, ?_, rfl⟩
  · have hall := h.separate.columns _ _ hm
    rw [← names_tableColumns] at hall ⊢
    rw [hcolumns]
    exact hall.sublist (List.filter_sublist.map _)
  · rcases hafter with rfl | rfl
    · rw [hcolumns]
      exact hR.filter _ hlike
    · exact hR.refl _

/-- An index is created. -/
theorem Held.addIndex (hR : Likeness R) (h : s.Held R db) (hs : s.models.Ordered)
    (hm : s.model? m.name = some m) (hname : m'.name = m.name) (htable : m'.table = m.table)
    (hcolumns : m'.tableColumns = m.tableColumns)
    (hmap : m'.indexMap = fun i => if i = index then some covered else m.indexMap i)
    (hexec : db.execute (.createIndex index m'.table covered) = some db') :
    (s.withModel m').Held R db' ∧ db.SameBut m.table db' := by
  refine h.change hR hs hm hname htable fun rest columns hfits hlike hnames hdb => ?_
  subst hdb
  rw [htable] at hexec
  obtain ⟨hfree, -, rfl⟩ := execute_createIndex hexec
  refine ⟨⟨⟨htable ▸ hfits.table, fun i hi => ?_⟩, hfits.sound⟩, ?_, columns, hcolumns ▸ hlike, ?_⟩
  · by_cases hindex : i = index
    · rw [hindex]
      exact hfree
    · rw [hmap] at hi
      exact hfits.indexes i (by simpa [hindex] using hi)
  · rw [← names_tableColumns, hcolumns, names_tableColumns]
    exact h.separate.columns _ _ hm
  · rw [htable, hmap]

/-- An index is dropped. -/
theorem Held.dropIndex (hR : Likeness R) (h : s.Held R db) (hs : s.models.Ordered)
    (hm : s.model? m.name = some m) (hname : m'.name = m.name) (htable : m'.table = m.table)
    (hcolumns : m'.tableColumns = m.tableColumns) (hindex : index ∈ m.indexes.names)
    (hmap : m'.indexMap = fun i => if i = index then none else m.indexMap i)
    (hexec : db.execute (.dropIndex index) = some db') :
    (s.withModel m').Held R db' ∧ db.SameBut m.table db' := by
  refine h.change hR hs hm hname htable fun rest columns hfits hlike hnames hdb => ?_
  subst hdb
  obtain ⟨covered, hcovered⟩ := Option.ne_none_iff_exists'.mp (indexMap_ne_none.mpr hindex)
  rw [execute_dropIndex hfits hcovered, Option.some.injEq] at hexec
  subst hexec
  refine ⟨⟨⟨htable ▸ hfits.table, fun i hi => ?_⟩, hfits.sound⟩, ?_, columns, hcolumns ▸ hlike, ?_⟩
  · rw [hmap] at hi
    exact hfits.indexes i fun hnone => hi (by simp [hnone])
  · rw [← names_tableColumns, hcolumns, names_tableColumns]
    exact h.separate.columns _ _ hm
  · rw [htable, hmap]

end AppSchema

/-! ### The columns and indexes of a changed model -/

namespace Model

open Backend

variable {m m' : Model} {names columns : List String} {index : String} {fields : Fields}

def withoutFields (m : Model) (names : List String) : Model :=
  { m with fields := m.fields.filter fun entry => entry.1 ∉ names }

/-- The indexes of a model depend on the fields that they cover only. -/
theorem indexMap_congr (hindexes : m'.indexes = m.indexes)
    (hfields : ∀ i covered, m.indexes.get? i = some covered → ∀ name ∈ covered,
      m'.field? name = m.field? name) :
    m'.indexMap = m.indexMap := by
  funext i
  rw [indexMap, indexMap, hindexes]
  cases hi : m.indexes.get? i with
  | none => rfl
  | some covered =>
      rw [Option.map_some, Option.map_some, columnsOf, columnsOf]
      congr 1
      apply List.filterMap_congr
      intro name hname
      rw [hfields i covered hi name hname]

/-- Removing fields leaves the others. -/
theorem field?_withoutFields (hm : m.Sound) {name : String} (h : name ∉ names) :
    (m.withoutFields names).field? name = m.field? name := by
  rw [field?, withoutFields, Named.get?_filter _ hm.fields, ← field?]
  cases m.field? name <;> simp [h]

theorem not_mem_of_isIndexed (hfree : ∀ name ∈ names, m.isIndexed name = false)
    {covered : List String}
    (hindex : m.indexes.get? index = some covered) : ∀ name ∈ covered, name ∉ names := by
  intro name hname hremoved
  have hnot := hfree name hremoved
  rw [isIndexed, List.any_eq_false] at hnot
  exact hnot (index, covered) (Named.mem_of_get? hindex) (by simpa using hname)

/-- Removing fields that no index covers leaves the indexes. -/
theorem indexMap_withoutFields (hm : m.Sound) (hfree : ∀ name ∈ names, m.isIndexed name = false) :
    (m.withoutFields names).indexMap = m.indexMap :=
  indexMap_congr rfl fun _ _ hi name hname =>
    field?_withoutFields hm (not_mem_of_isIndexed hfree hi name hname)

theorem mem_columnsOf {column : String} : column ∈ m.columnsOf names ↔
    ∃ name ∈ names, ∃ field, m.field? name = some field ∧ field.columnName name = column := by
  simp only [columnsOf, List.mem_filterMap, Option.map_eq_some_iff]

/-- In a model whose columns have different names, a column belongs to one field. -/
theorem eq_of_columnName_eq (hcolumns : m.columns.Nodup) {x y : String × Field}
    (hx : m.field? x.1 = some x.2) (hy : m.field? y.1 = some y.2)
    (h : x.2.columnName x.1 = y.2.columnName y.1) : x = y :=
  List.inj_on_of_nodup_map hcolumns (Named.mem_of_get? hx) (Named.mem_of_get? hy) h

/-- A column belongs to one field only. -/
theorem mem_columnsOf_iff (hm : m.Sound) (hcolumns : m.columns.Nodup) {entry : String × Field}
    (hentry : entry ∈ m.fields) :
    entry.2.columnName entry.1 ∈ m.columnsOf names ↔ entry.1 ∈ names := by
  have hfield : m.field? entry.1 = some entry.2 := Named.get?_of_mem hm.fields hentry
  rw [mem_columnsOf]
  constructor
  · rintro ⟨name, hname, field, hfield', heq⟩
    obtain rfl := eq_of_columnName_eq (x := (name, field)) hcolumns hfield' hfield heq
    exact hname
  · intro hname
    exact ⟨entry.1, hname, entry.2, hfield, rfl⟩

/-- Without some fields the table lacks their columns. -/
theorem tableColumns_withoutFields (hm : m.Sound) (hcolumns : m.columns.Nodup) :
    (m.withoutFields names).tableColumns
      = m.tableColumns.filter (·.name ∉ m.columnsOf names) := by
  show List.map Column.ofEntry (m.fields.filter _) = List.filter _ (m.fields.map Column.ofEntry)
  rw [List.filter_map]
  congr 1
  apply List.filter_congr
  intro entry hentry
  simp [mem_columnsOf_iff hm hcolumns hentry]

/-- An index is not over a column of a field that it does not have. -/
theorem not_mem_indexMap (hcolumns : m.columns.Nodup)
    (hfree : ∀ name ∈ names, m.isIndexed name = false) {covered : List String}
    (hindex : m.indexMap index = some covered) : ∀ column ∈ m.columnsOf names,
    column ∉ covered := by
  intro column hremoved hcovered
  obtain ⟨fields, hfields, rfl⟩ := Option.map_eq_some_iff.mp hindex
  obtain ⟨name, hname, field, hfield, rfl⟩ := mem_columnsOf.mp hremoved
  obtain ⟨name', hname', field', hfield', heq⟩ := mem_columnsOf.mp hcovered
  have hsame :=
    eq_of_columnName_eq (x := (name', field')) (y := (name, field)) hcolumns hfield' hfield
    heq
  cases hsame
  exact not_mem_of_isIndexed hfree hfields name hname' hname

/-- The fields picked and those left are all fields, in another order maybe. -/
theorem perm_of_picks {now : DateTime} (hm : m.Sound) (hnames : names.Nodup)
    (h : Picks now m names fields) : ((m.withoutFields names).fields ++ fields).Perm m.fields := by
  have hpicked : fields.Perm (m.fields.filter fun entry => entry.1 ∈ names) := by
    rw [List.perm_ext_iff_of_nodup]
    · intro entry
      rw [List.mem_filter, decide_eq_true_eq, ← h.names_eq]
      constructor
      · intro hentry
        exact ⟨Named.mem_of_get? (h.field? entry hentry), List.mem_map_of_mem hentry⟩
      · rintro ⟨hentry, hname⟩
        obtain ⟨other, hother, heq⟩ := List.mem_map.mp hname
        have hfield := h.field? other hother
        have hfield' := Named.get?_of_mem hm.fields hentry
        rw [heq, Model.field?, hfield', Option.some.injEq] at hfield
        rwa [← Prod.ext heq hfield.symm]
    · exact (h.names_eq ▸ hnames : fields.names.Nodup).of_map _
    · exact (hm.fields.of_map _).filter _
  have hsplit := List.filter_append_perm (fun entry : String × Field => decide (entry.1 ∈ names))
    m.fields
  refine (hpicked.append_left _).trans (List.perm_append_comm.trans (List.Perm.trans ?_ hsplit))
  rw [withoutFields]
  simp

end Model

/-! ### Carrying out and undoing -/

namespace AppSchema

open Backend Catalog

variable {R : List Column → List Column → Prop} {s : AppSchema} {m m' : Model} {name : String}
  {db db' : Catalog} {statements : List Statement} {names columns : List String} {fields : Fields}

theorem require_eq_ok : s.require name = .ok m ↔ s.model? name = some m := by
  unfold require
  cases s.model? name <;> simp

/-- The model that a work asks for. -/
theorem require_step {σ α : Type} {work : Model → Work σ α} {t u : σ} {a : α}
    (hm : s.model? name = some m)
    (h : (Work.ofExcept (s.require name) >>= work) t = .ok a u) : work m t = .ok a u := by
  obtain ⟨m', v, hanswer, h⟩ := bind_eq_ok.mp h
  obtain ⟨hrequire, rfl⟩ := Work.ofExcept_eq_ok.mp hanswer
  obtain rfl := Option.some.inj (hm.symm.trans (require_eq_ok.mp hrequire))
  exact h

/-- Fields that are in a model, and in its table not yet, are added to the table. -/
theorem Held.addFields (hR : Likeness R) (h : s.Held R db) (hs : s.models.Ordered) (hm' : m'.Sound)
    (hm : s.model? m'.name = some (m'.withoutFields names))
    (hfree : ∀ name ∈ names, m'.isIndexed name = false)
    (hcolumns : ∀ columns, R columns (m'.withoutFields names).tableColumns →
      R (columns ++ fields.map Column.ofEntry) m'.tableColumns) {inPlace : Bool} {now : DateTime}
    (hindexes : (fields.foldl (Adding.add inPlace now) {}).rebuild = true →
      m'.indexes.names.mapM (indexStatement m') = .ok statements)
    (hexec : db.executeAll (widening inPlace now m' fields statements) = some db') :
    (s.withModel m').Held R db' ∧ db.SameBut m'.table db' :=
  h.widen (m := m'.withoutFields names) hR hs hm rfl rfl
    (Model.indexMap_withoutFields hm' hfree).symm hcolumns hindexes hexec

/-- The columns of some fields, which no index is over, are dropped. -/
theorem Held.removeFields (hR : Likeness R) (h : s.Held R db) (hs : s.models.Ordered)
    (hsound : m.Sound)
    (hm : s.model? m.name = some m) (hfree : ∀ name ∈ names, m.isIndexed name = false)
    (hnames : names.mapM m.column = .ok columns) {inPlace : Bool}
    (hindexes : inPlace = false → (m.withoutFields names).indexes.names.mapM
      (indexStatement (m.withoutFields names)) = .ok statements)
    (hexec : db.executeAll (narrowing inPlace m (m.withoutFields names) columns statements)
      = some db') :
    (s.withModel (m.withoutFields names)).Held R db' ∧ db.SameBut m.table db' := by
  have hcolumns := h.separate.columns _ _ hm
  have hmap := Model.indexMap_withoutFields hsound hfree
  have heq := Model.columnsOf_eq hnames
  refine h.narrow hR hs hm rfl rfl hmap ?_ ?_ hindexes hexec
  · rw [← heq]
    exact Model.tableColumns_withoutFields hsound hcolumns
  · intro i covered hi
    rw [← heq]
    exact Model.not_mem_indexMap hcolumns hfree (hmap ▸ hi)

end AppSchema

namespace Operation

open Backend Catalog AppSchema

variable {σ : Type} {backend : Backend σ} {catalog : σ → Catalog}
  {R : List Column → List Column → Prop} {operation : Operation} {before after : AppSchema}
  {m m' : Model} {s t : σ}

/-- Without the fields that were added a model is what it was. -/
theorem addFields_withoutFields {fields : Fields}
    (hapart : List.Disjoint m.fields.names fields.names) :
    { m with fields := m.fields ++ fields }.withoutFields fields.names = m := by
  have hfields : ((m.fields ++ fields).filter fun entry => entry.1 ∉ fields.names) = m.fields := by
    rw [List.filter_append, List.filter_eq_self.mpr, List.filter_eq_nil_iff.mpr, List.append_nil]
    · intro entry hentry
      have hname : entry.1 ∈ fields.names := List.mem_map_of_mem hentry
      simpa using hname
    · intro entry hentry
      simpa using hapart (List.mem_map_of_mem hentry)
  unfold Model.withoutFields
  rw [hfields]

theorem not_isIndexed_of_disjoint {fields : Fields} (hm : m.Sound)
    (hapart : List.Disjoint m.fields.names fields.names) :
    ∀ name ∈ fields.names, m.isIndexed name = false := by
  intro name hname
  rw [Model.isIndexed, List.any_eq_false]
  rintro ⟨index, covered⟩ hindex hcovered
  have hmem : name ∈ covered := by simpa using hcovered
  exact hapart
    (hm.indexed index covered (Named.get?_of_mem hm.indexes.nodup_names hindex) name hmem)
    hname

/-- Removing the fields that were added gives the model before. -/
theorem withoutFields_of_addFields {fields : Fields} (hm : m.Sound)
    (hapart : List.Disjoint m.fields.names fields.names)
    (heq : m' = { m with fields := m.fields ++ fields }) :
    m'.withoutFields fields.names = m ∧ ∀ name ∈ fields.names, m'.isIndexed name = false := by
  have hnot := not_isIndexed_of_disjoint hm hapart
  subst heq
  exact ⟨addFields_withoutFields hapart, hnot⟩

/-- The fields that were added are looked up in the new model by their names, and found as they were
given. -/
theorem eq_of_picks {now : DateTime} {fields picked : Fields} (hm' : m'.Sound)
    (heq : m' = { m with fields := m.fields ++ fields })
    (hpicks : Picks now m' fields.names picked) : picked = fields := by
  refine Named.eq_of_names_eq hpicks.names_eq hpicks.field? fun entry hentry => ?_
  exact Named.get?_of_mem hm'.fields (by rw [heq]; exact List.mem_append_right _ hentry)

theorem indexMap_insert {index : String} {fields covered : List String}
    (hcovered : { m with indexes := m.indexes.insert index fields }.indexMap index = some covered) :
    { m with indexes := m.indexes.insert index fields }.indexMap
      = fun i => if i = index then some covered else m.indexMap i := by
  funext i
  by_cases hi : i = index
  · rw [if_pos hi, hi, hcovered]
  · rw [if_neg hi]
    show Option.map _ (Named.get? i (m.indexes.insert index fields)) = _
    rw [Named.get?_insert_ne (Ne.symm hi)]
    rfl

theorem indexMap_erase {index : String} : { m with indexes := m.indexes.erase index }.indexMap
    = fun i => if i = index then none else m.indexMap i := by
  funext i
  show Option.map _ (Named.get? i (m.indexes.erase index)) = _
  rw [Named.get?_erase]
  by_cases hi : i = index
  · rw [if_pos hi, if_pos hi.symm]
    rfl
  · rw [if_neg hi, if_neg (Ne.symm hi)]
    rfl

/-! ### Each kind of operation, forward and backward -/

/-- Creating a model adds its table to those that hold the state. -/
theorem createModel_forward {name : String} {table : Option String} {fields : Fields}
    (hR : Likeness R) (hcarries : backend.Carries catalog) (hs : before.Sound)
    (hheld : before.Held R (catalog s)) (hnone : before.model? m.name = none)
    (hindexes : m.indexes = [])
    (hname : m.name = name)
    (h : (createModel name table fields).forward backend ⟨before, before.withModel m⟩ s
      = .ok () t) :
    (before.withModel m).Held R (catalog t) ∧ (catalog s).SameBut m.table (catalog t) := by
  subst hname
  have hrun := require_step model?_withModel_self h
  have hnames : m.indexes.names.mapM (indexStatement m) = .ok [] := by rw [hindexes]; rfl
  exact hheld.create hR hs.ordered hnone hnames
    ((Runs.of_run (Session.toWork_eq_ok.mp hrun)).executeAll hcarries)

/-- Undoing it drops that table. -/
theorem createModel_backward {name : String} {table : Option String} {fields : Fields}
    (hcarries : backend.Carries catalog) (hafter : (before.withModel m).Sound)
    (hheld : (before.withModel m).Held R (catalog s)) (hnone : before.model? m.name = none)
    (hname : m.name = name)
    (h : (createModel name table fields).backward backend ⟨before, before.withModel m⟩ s
      = .ok () t) :
    before.Held R (catalog t) ∧ (catalog s).SameBut m.table (catalog t) := by
  subst hname
  have hrun := require_step model?_withModel_self h
  have hdrop := hheld.drop hafter.ordered model?_withModel_self
    ((Runs.of_run (Session.toWork_eq_ok.mp hrun)).execute hcarries)
  rwa [withModel_withoutModel, withoutModel_of_none hnone] at hdrop

/-- Deleting a model drops its table. -/
theorem deleteModel_forward (hcarries : backend.Carries catalog) (hs : before.Sound)
    (hheld : before.Held R (catalog s)) (hm : before.model? m.name = some m)
    (h : (deleteModel m.name).forward backend ⟨before, before.withoutModel m.name⟩ s = .ok () t) :
    (before.withoutModel m.name).Held R (catalog t) ∧ (catalog s).SameBut m.table (catalog t) :=
  hheld.drop hs.ordered hm
    ((Runs.of_run (Session.toWork_eq_ok.mp (require_step hm h))).execute hcarries)

/-- Undoing it creates the table again, without its rows. -/
theorem deleteModel_backward (hR : Likeness R) (hcarries : backend.Carries catalog)
    (hs : before.Sound)
    (hheld : (before.withoutModel m.name).Held R (catalog s)) (hm : before.model? m.name = some m)
    (h : (deleteModel m.name).backward backend ⟨before, before.withoutModel m.name⟩ s = .ok () t) :
    before.Held R (catalog t) ∧ (catalog s).SameBut m.table (catalog t) := by
  obtain ⟨statements, hindexes, hruns⟩ :=
    runs_of_restoreTable (Session.toWork_eq_ok.mp (require_step hm h))
  have hnone : (before.withoutModel m.name).model? m.name = none := by
    rw [model?_withoutModel, if_pos rfl]
  have hcreate := hheld.create hR hs.withoutModel.ordered hnone hindexes (hruns.executeAll hcarries)
  rwa [hs.withoutModel_withModel hm] at hcreate

/-- New columns stand behind the old ones, so this holds up to order and without. -/
theorem addFields_forward {fields : Fields} (hR : Likeness R) (hcarries : backend.Carries catalog)
    (hs : before.Sound) (hheld : before.Held R (catalog s)) (hm : before.model? m.name = some m)
    (hm' : m'.Sound) (hapart : List.Disjoint m.fields.names fields.names)
    (heq : m' = { m with fields := m.fields ++ fields })
    (h : (addFields m.name fields).forward backend ⟨before, before.withModel m'⟩ s = .ok () t) :
    (before.withModel m').Held R (catalog t) ∧ (catalog s).SameBut m.table (catalog t) := by
  obtain ⟨hwithout, hfree⟩ := withoutFields_of_addFields (hs.model _ _ hm) hapart heq
  have hrun := require_step (m := m') (by rw [model?_withModel, heq, if_pos rfl]) h
  obtain ⟨picked, statements, hpicks, hindexes, hruns⟩ :=
    runs_of_widenTable (Session.toWork_eq_ok.mp hrun)
  obtain rfl := eq_of_picks hm' heq hpicks
  have htable : m'.table = m.table := by rw [heq]
  rw [← htable]
  refine hheld.addFields hR hs.ordered hm' ?_ hfree ?_ hindexes (hruns.executeAll hcarries)
  · rw [hwithout, heq]
    exact hm
  · intro columns hcolumns
    rw [hwithout] at hcolumns
    have hall : m'.tableColumns = m.tableColumns ++ picked.map Column.ofEntry := by
      rw [heq]
      exact List.map_append
    rw [hall]
    exact hR.append _ hcolumns

/-- Undoing added fields drops their columns. -/
theorem addFields_backward {fields : Fields} (hR : Likeness R) (hcarries : backend.Carries catalog)
    (hs : before.Sound) (hheld : (before.withModel m').Held R (catalog s))
    (hm : before.model? m.name = some m) (hm' : m'.Sound)
    (hapart : List.Disjoint m.fields.names fields.names)
    (heq : m' = { m with fields := m.fields ++ fields })
    (h : (addFields m.name fields).backward backend ⟨before, before.withModel m'⟩ s = .ok () t) :
    ((before.withModel m').withModel m).Held R (catalog t) ∧
      (catalog s).SameBut m.table (catalog t) := by
  obtain ⟨hwithout, hfree⟩ := withoutFields_of_addFields (hs.model _ _ hm) hapart heq
  have hself : (before.withModel m').model? m.name = some m' := by
    rw [model?_withModel, heq, if_pos rfl]
  have hrun := require_step hm (require_step hself h)
  obtain ⟨columns, statements, hcolumns, hindexes, hruns⟩ :=
    runs_of_narrowTable (Session.toWork_eq_ok.mp hrun)
  have hexec := hruns.executeAll hcarries
  have htable : m'.table = m.table := by rw [heq]
  rw [← htable]
  rw [← hwithout] at hindexes hexec ⊢
  exact hheld.removeFields hR hs.ordered.insert hm' model?_withModel_self hfree hcolumns
    hindexes hexec

/-- Removing fields drops their columns. -/
theorem removeFields_forward {names : List String} (hR : Likeness R)
    (hcarries : backend.Carries catalog) (hs : before.Sound) (hheld : before.Held R (catalog s))
    (hm : before.model? m.name = some m) (hfree : ∀ name ∈ names, m.isIndexed name = false)
    (h : (removeFields m.name names).forward backend
      ⟨before, before.withModel (m.withoutFields names)⟩ s = .ok () t) :
    (before.withModel (m.withoutFields names)).Held R (catalog t) ∧
      (catalog s).SameBut m.table (catalog t) := by
  have hself : (before.withModel (m.withoutFields names)).model? m.name
      = some (m.withoutFields names) :=
    model?_withModel_self
  have hrun := require_step hself (require_step hm h)
  obtain ⟨columns, statements, hcolumns, hindexes, hruns⟩ :=
    runs_of_narrowTable (Session.toWork_eq_ok.mp hrun)
  exact hheld.removeFields hR hs.ordered (hs.model _ _ hm) hm hfree hcolumns hindexes
    (hruns.executeAll hcarries)

/-- The columns come back behind the others, wherever they were. -/
theorem removeFields_backward {names : List String} (hcarries : backend.Carries catalog)
    (hs : before.Sound) (hheld : (before.withModel (m.withoutFields names)).HeldBy (catalog s))
    (hm : before.model? m.name = some m) (hnames : names.Nodup)
    (hfree : ∀ name ∈ names, m.isIndexed name = false)
    (h : (removeFields m.name names).backward backend
      ⟨before, before.withModel (m.withoutFields names)⟩ s = .ok () t) :
    ((before.withModel (m.withoutFields names)).withModel m).HeldBy (catalog t) ∧
      (catalog s).SameBut m.table (catalog t) := by
  have hsound := hs.model _ _ hm
  obtain ⟨picked, statements, hpicks, hindexes, hruns⟩ :=
    runs_of_widenTable (Session.toWork_eq_ok.mp (require_step hm h))
  refine hheld.addFields likeness_perm hs.ordered.insert hsound model?_withModel_self
    hfree ?_ hindexes
    (hruns.executeAll hcarries)
  intro columns hcolumns
  have hperm := (Model.perm_of_picks hsound hnames hpicks).map Column.ofEntry
  rw [List.map_append] at hperm
  exact (hcolumns.append_right _).trans hperm

/-- Adding an index creates it over the columns of its fields. -/
theorem addIndex_forward {index : String} {fields : List String} (hR : Likeness R)
    (hcarries : backend.Carries catalog) (hs : before.Sound) (hheld : before.Held R (catalog s))
    (hm : before.model? m.name = some m)
    (heq : m' = { m with indexes := m.indexes.insert index fields })
    (h : (addIndex m.name index fields).forward backend ⟨before, before.withModel m'⟩ s
      = .ok () t) :
    (before.withModel m').Held R (catalog t) ∧ (catalog s).SameBut m.table (catalog t) := by
  have hself : (before.withModel m').model? m.name = some m' := by
    rw [model?_withModel, heq, if_pos rfl]
  obtain ⟨statement, hstatement, hruns⟩ :=
    runs_of_createIndex (Session.toWork_eq_ok.mp (require_step hself h))
  obtain ⟨covered, hcovered, rfl⟩ := indexStatement_eq_ok hstatement
  subst heq
  exact hheld.addIndex hR hs.ordered hm rfl rfl rfl (indexMap_insert hcovered)
    (hruns.execute hcarries)

/-- Undoing it drops the index. -/
theorem addIndex_backward {index : String} {fields : List String} (hR : Likeness R)
    (hcarries : backend.Carries catalog) (hs : before.Sound)
    (hheld : (before.withModel m').Held R (catalog s)) (hnone : m.indexes.get? index = none)
    (heq : m' = { m with indexes := m.indexes.insert index fields })
    (h : (addIndex m.name index fields).backward backend ⟨before, before.withModel m'⟩ s
      = .ok () t) :
    ((before.withModel m').withModel m).Held R (catalog t) ∧
      (catalog s).SameBut m.table (catalog t) := by
  have hindex : index ∈ m'.indexes.names := by
    rw [heq]
    exact Named.mem_names_iff.mpr ⟨fields, Named.get?_insert_self⟩
  have htable : m'.table = m.table := by rw [heq]
  rw [← htable]
  refine hheld.dropIndex hR hs.ordered.insert model?_withModel_self (by rw [heq]) htable.symm
    (by rw [heq]; rfl) hindex ?_ ((Runs.of_run (Session.toWork_eq_ok.mp h)).execute hcarries)
  rw [heq]
  funext i
  by_cases hi : i = index
  · rw [if_pos hi, hi]
    exact indexMap_of_not_mem (Named.get?_eq_none_iff.mp hnone)
  · rw [if_neg hi]
    show _ = Option.map _ (Named.get? i (m.indexes.insert index fields))
    rw [Named.get?_insert_ne (Ne.symm hi)]
    rfl

/-- Removing an index drops it. -/
theorem removeIndex_forward {index : String} (hR : Likeness R) (hcarries : backend.Carries catalog)
    (hs : before.Sound) (hheld : before.Held R (catalog s)) (hm : before.model? m.name = some m)
    (hindex : index ∈ m.indexes.names)
    (heq : m' = { m with indexes := m.indexes.erase index })
    (h : (removeIndex m.name index).forward backend ⟨before, before.withModel m'⟩ s = .ok () t) :
    (before.withModel m').Held R (catalog t) ∧ (catalog s).SameBut m.table (catalog t) := by
  subst heq
  exact hheld.dropIndex hR hs.ordered hm rfl rfl rfl hindex indexMap_erase
    ((Runs.of_run (Session.toWork_eq_ok.mp h)).execute hcarries)

/-- Undoing it creates the index again. -/
theorem removeIndex_backward {index : String} (hR : Likeness R) (hcarries : backend.Carries catalog)
    (hs : before.Sound) (hheld : (before.withModel m').Held R (catalog s))
    (hm : before.model? m.name = some m) (heq : m' = { m with indexes := m.indexes.erase index })
    (h : (removeIndex m.name index).backward backend ⟨before, before.withModel m'⟩ s = .ok () t) :
    ((before.withModel m').withModel m).Held R (catalog t) ∧
      (catalog s).SameBut m.table (catalog t) := by
  obtain ⟨statement, hstatement, hruns⟩ :=
    runs_of_createIndex (Session.toWork_eq_ok.mp (require_step hm h))
  obtain ⟨covered, hcovered, rfl⟩ := indexStatement_eq_ok hstatement
  have htable : m'.table = m.table := by rw [heq]
  rw [← htable]
  refine hheld.addIndex hR hs.ordered.insert model?_withModel_self (by rw [heq]) htable.symm
    (by rw [heq]; rfl) ?_ (hruns.execute hcarries)
  rw [heq, indexMap_erase]
  funext i
  by_cases hi : i = index
  · rw [if_pos hi, hi, hcovered]
  · simp only [if_neg hi]

/-! ### All operations -/

/-- The table that an operation is about. -/
def table? (step : AppSchema.Step) (operation : Operation) : Option String :=
  ((step.before.model? operation.model).or (step.after.model? operation.model)).map (·.table)

theorem table?_eq (h : before.model? operation.model = some m) :
    operation.table? ⟨before, after⟩ = some m.table := by
  rw [table?, h]
  rfl

theorem table?_eq_of_none (hnone : before.model? operation.model = none)
    (h : after.model? operation.model = some m) :
    operation.table? ⟨before, after⟩ = some m.table := by
  rw [table?, hnone, h]
  rfl

/-- The tables that an operation is not about have not changed. -/
def Spares (operation : Operation) (step : AppSchema.Step) (db db' : Catalog) : Prop :=
  ∀ table, operation.table? step ≠ some table → db'.tables table = db.tables table

/-- What changes in one table only spares all the others. -/
theorem spares_of_sameBut {table : String} {step : AppSchema.Step} {db db' : Catalog}
    (htable : operation.table? step = some table) (h : db.SameBut table db') :
    operation.Spares step db db' := by
  intro other hother
  refine h other ?_
  rintro rfl
  exact hother htable

/-- A database that holds the state before an operation holds the state after it when it has carried
the operation out. -/
theorem forward_held (hR : Likeness R) (hcarries : backend.Carries catalog) (hs : before.Sound)
    (happly : operation.Applies before after) (hafter : after.Sound)
    (hheld : before.Held R (catalog s))
    (h : operation.forward backend ⟨before, after⟩ s = .ok () t) :
    after.Held R (catalog t) ∧ operation.Spares ⟨before, after⟩ (catalog s) (catalog t) := by
  cases happly with
  | @createModel name table fields m hnone hparts =>
      obtain ⟨key, -, rfl⟩ := Model.ofParts_eq_ok hparts
      obtain ⟨hheld', hbut⟩ := createModel_forward hR hcarries hs hheld hnone rfl rfl h
      exact ⟨hheld', spares_of_sameBut (table?_eq_of_none hnone model?_withModel_self) hbut⟩
  | @deleteModel name m hm =>
      obtain rfl := hs.name_eq name m hm
      obtain ⟨hheld', hbut⟩ := deleteModel_forward hcarries hs hheld hm h
      exact ⟨hheld', spares_of_sameBut (table?_eq hm) hbut⟩
  | @change operation m m' hm hchange =>
      have hm' : m'.Sound := hafter.model m'.name m' model?_withModel_self
      suffices hstep : (before.withModel m').Held R (catalog t) ∧
          (catalog s).SameBut m.table (catalog t) from
        ⟨hstep.1, spares_of_sameBut (table?_eq hm) hstep.2⟩
      cases hchange with
      | addFields hnames hapart => exact addFields_forward hR hcarries hs hheld hm hm' hapart rfl h
      | removeFields hnames hmem hfree => exact removeFields_forward hR hcarries hs hheld hm hfree h
      | addIndex hnone hfields => exact addIndex_forward hR hcarries hs hheld hm rfl h
      | removeIndex hindex => exact removeIndex_forward hR hcarries hs hheld hm hindex rfl h

/-- A database that holds the state after an operation holds the state before it again when it has
undone the operation. The columns may stand in another order than before. -/
theorem backward_held (hcarries : backend.Carries catalog) (hs : before.Sound)
    (happly : operation.Applies before after) (hafter : after.Sound)
    (hheld : after.HeldBy (catalog s))
    (h : operation.backward backend ⟨before, after⟩ s = .ok () t) :
    before.HeldBy (catalog t) ∧ operation.Spares ⟨before, after⟩ (catalog s) (catalog t) := by
  have hR := likeness_perm
  cases happly with
  | @createModel name table fields m hnone hparts =>
      obtain ⟨key, -, rfl⟩ := Model.ofParts_eq_ok hparts
      obtain ⟨hheld', hbut⟩ := createModel_backward hcarries hafter hheld hnone rfl h
      exact ⟨hheld', spares_of_sameBut (table?_eq_of_none hnone model?_withModel_self) hbut⟩
  | @deleteModel name m hm =>
      obtain rfl := hs.name_eq name m hm
      obtain ⟨hheld', hbut⟩ := deleteModel_backward hR hcarries hs hheld hm h
      exact ⟨hheld', spares_of_sameBut (table?_eq hm) hbut⟩
  | @change operation m m' hm hchange =>
      have hm' : m'.Sound := hafter.model m'.name m' model?_withModel_self
      -- the change that undoes this one puts back the model there was before
      have hback : (before.withModel m').withModel m = before := by
        rw [withModel_withModel hchange.name_eq]
        exact hs.withModel_self hm
      suffices hstep : ((before.withModel m').withModel m).HeldBy (catalog t) ∧
          (catalog s).SameBut m.table (catalog t) by
        rw [hback] at hstep
        exact ⟨hstep.1, spares_of_sameBut (table?_eq hm) hstep.2⟩
      cases hchange with
      | addFields hnames hapart => exact addFields_backward hR hcarries hs hheld hm hm' hapart rfl h
      | removeFields hnames hmem hfree =>
          exact removeFields_backward hcarries hs hheld hm hnames hfree h
      | addIndex hnone hfields => exact addIndex_backward hR hcarries hs hheld hnone rfl h
      | removeIndex hindex => exact removeIndex_backward hR hcarries hs hheld hm rfl h

end Operation

end SchemaHistory
