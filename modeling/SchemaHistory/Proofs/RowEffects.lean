import SchemaHistory.Proofs.DeclaredModels
import SchemaHistory.Proofs.InPlaceOrAnew
import SchemaHistory.Proofs.Parts

/-!
# What operations do to rows

An operation that a database carries out leaves it sound: every row keeps to the columns of its
table (`Operation.forward_rows`). What it does not remove is kept, each row with the values that it
had: `AppSchema.Retained` says so of two states and the databases that hold them.

* `Operation.removes`: the parts of its model that an operation removes.
* `AppSchema.Retained`: all is kept that belongs to no lost part.
* `Operation.forward_rows`: one operation keeps what it does not remove.
-/

namespace SchemaHistory

def Operation.removes : Operation → Part → Bool
  | deleteModel _, _ => true
  | removeFields _ names, .field name => names.contains name
  | removeIndex _ index, .index name => index == name
  | _, _ => false

/-- A model and the rows of its table are kept, less some lost parts. A row keeps what it holds in
the columns of the fields that are not lost. -/
structure Model.Retained (lost : Part → Prop) (m m' : Model) (records records' : List Record) :
    Prop where
  table : m'.table = m.table
  fields : ∀ name field, ¬lost (.field name) → m.field? name = some field →
    m'.field? name = some field
  indexes : ∀ index covered, ¬lost (.index index) → m.indexes.get? index = some covered →
    m'.indexes.get? index = some covered
  records : List.Forall₂ (fun record record' => ∀ name field, ¬lost (.field name) →
    m.field? name = some field →
    record' (field.columnName name) = record (field.columnName name)) records records'

/-- The models of a state are kept in another one, and so are the rows of their tables, less some
lost parts. -/
def AppSchema.Retained (lost : String → Part → Prop) (s t : AppSchema) (db db' : Database) : Prop :=
  ∀ name m, s.model? name = some m → ¬lost name .shell → ∃ m', t.model? name = some m' ∧
    m.Retained (lost name) m' (db.rows m.table) (db'.rows m.table)

/-- Lists that are related item by item to one between them. -/
theorem forall₂_through {α β γ : Type} {R : α → β → Prop} {S : β → γ → Prop} {T : α → γ → Prop}
    {xs : List α} {ys : List β} {zs : List γ} (hstep : ∀ x y z, R x y → S y z → T x z)
    (h : List.Forall₂ R xs ys) (h' : List.Forall₂ S ys zs) : List.Forall₂ T xs zs := by
  induction h generalizing zs with
  | nil =>
      cases h'
      exact .nil
  | cons hfirst _ ih =>
      cases h' with
      | cons hfirst' hrest' => exact .cons (hstep _ _ _ hfirst hfirst') (ih hrest')

namespace Model.Retained

variable {lost more : Part → Prop} {m m' m'' : Model} {records records' records'' : List Record}
  {change : Record → Record}

/-- What is lost at most may be said more loosely. -/
theorem mono (h : m.Retained lost m' records records') (hmore : ∀ part, lost part → more part) :
    m.Retained more m' records records' where
  table := h.table
  fields name field hnot := h.fields name field (mt (hmore _) hnot)
  indexes index covered hnot := h.indexes index covered (mt (hmore _) hnot)
  records := h.records.imp fun _ _ hsame name field hnot => hsame name field (mt (hmore _) hnot)

/-- What two changes lose at most is lost at most by both. -/
theorem trans (h : m.Retained lost m' records records')
    (h' : m'.Retained lost m'' records' records'') :
    m.Retained lost m'' records records'' where
  table := h'.table.trans h.table
  fields name field hnot hfield := h'.fields name field hnot (h.fields name field hnot hfield)
  indexes index covered hnot hindex :=
    h'.indexes index covered hnot (h.indexes index covered hnot hindex)
  records := by
    refine forall₂_through ?_ h.records h'.records
    intro record record' record'' hfirst hlater name field hnot hfield
    exact (hlater name field hnot (h.fields name field hnot hfield)).trans
      (hfirst name field hnot hfield)

/-- The rows are changed in the same manner. -/
theorem of_map (htable : m'.table = m.table)
    (hfields : ∀ name field, ¬lost (.field name) → m.field? name = some field →
      m'.field? name = some field ∧
      ∀ record, change record (field.columnName name) = record (field.columnName name))
    (hindexes : ∀ index covered, ¬lost (.index index) → m.indexes.get? index = some covered →
      m'.indexes.get? index = some covered) :
    m.Retained lost m' records (records.map change) where
  table := htable
  fields name field hnot hfield := (hfields name field hnot hfield).1
  indexes := hindexes
  records := by
    rw [List.forall₂_map_right_iff]
    exact List.forall₂_same.mpr fun record _ name field hnot hfield =>
      (hfields name field hnot hfield).2 record

theorem refl (m : Model) (records : List Record) : m.Retained lost m records records := by
  have h : m.Retained lost m records (records.map id) :=
    of_map rfl (fun _ _ _ hfield => ⟨hfield, fun _ => rfl⟩) fun _ _ _ hindex => hindex
  rwa [List.map_id] at h

end Model.Retained

namespace AppSchema

variable {lost more : String → Part → Prop} {s t u : AppSchema} {db db' db'' : Database}

theorem Retained.mono (h : s.Retained lost t db db') (hmore : ∀ name part, lost name part →
    more name part) :
    s.Retained more t db db' := by
  intro name m hm hnot
  obtain ⟨m', hm', hkept⟩ := h name m hm (mt (hmore name _) hnot)
  exact ⟨m', hm', hkept.mono (hmore name)⟩

theorem Retained.trans (h : s.Retained lost t db db') (h' : t.Retained lost u db' db'') :
    s.Retained lost u db db'' := by
  intro name m hm hnot
  obtain ⟨m', hm', hkept⟩ := h name m hm hnot
  obtain ⟨m'', hm'', hkept'⟩ := h' name m' hm' hnot
  rw [hkept.table] at hkept'
  exact ⟨m'', hm'', hkept.trans hkept'⟩

theorem Retained.refl (s : AppSchema) (db : Database) : s.Retained lost s db db :=
  fun _ m hm _ => ⟨m, hm, .refl m _⟩

/-! ### Databases that hold a state -/

variable {m : Model} {catalog : Catalog} {table : String} {columns : List Column}

theorem Held.sound (h : s.HeldBy catalog) : catalog.Sound := fun i index hindex =>
  mt h.like.tables_eq_none.mp (Catalog.sound_ofModels i index (h.like.indexes ▸ hindex))

/-- A table is that of a model. -/
theorem Held.exists_model (h : s.HeldBy catalog) (hs : s.models.Ordered)
    (htable : catalog.tables table = some columns) :
    ∃ name m, s.model? name = some m ∧ m.table = table ∧ columns.Perm m.tableColumns := by
  have hthere : s.HasTable table := by
    by_contra hnot
    have hnone := h.like.tables_eq_none.mpr ((tables_catalog_eq_none hs).mpr hnot)
    rw [htable] at hnone
    cases hnone
  obtain ⟨name, m, hm, rfl⟩ := hthere
  refine ⟨name, m, hm, rfl, ?_⟩
  have hlike := h.like.tables m.table
  rw [htable, tables_catalog hs h.separate hm] at hlike
  cases hlike with
  | some hperm => exact hperm

theorem Held.columns_nodup (h : s.HeldBy catalog) (hs : s.models.Ordered)
    (htable : catalog.tables table = some columns) : (columns.map (·.name)).Nodup := by
  obtain ⟨name, m, hm, -, hperm⟩ := h.exists_model hs htable
  rw [(hperm.map _).nodup_iff, names_tableColumns]
  exact h.separate.columns name m hm

/-- Tables that hold a state have one for each of its models. -/
theorem Held.hasTable (h : s.HeldBy db.catalog) (hs : s.models.Ordered)
    (hm : s.model? m.name = some m) :
    db.HasTable m := by
  obtain ⟨rest, columns, hdb, hperm, -, hfits⟩ := h.exists_rest hs hm
  refine ⟨⟨columns, by rw [hdb, Catalog.tables_put_self], hperm⟩, fun index covered => ?_⟩
  rw [hdb]
  cases hindex : m.indexMap index with
  | some found =>
      rw [Catalog.indexes_put_of_some hindex]
      simp
  | none =>
      rw [Catalog.indexes_put_of_none hindex]
      -- an index of the rest belongs to another table
      constructor
      · intro hother
        exact absurd rfl (hfits.table_ne hother)
      · nofun

end AppSchema

/-- The order of the columns does not matter to a row. -/
theorem Record.fits_perm {columns columns' : List Column} {record : Record}
    (h : columns.Perm columns') :
    record.Fits columns ↔ record.Fits columns' :=
  forall_congr' fun _ => by rw [(h.map _).mem_iff]

/-- The table that is created for a model has no rows, and there were none in its place. -/
theorem Database.Runs.rows_create {compares : Comparison → Value → Value → Truth}
    {db db' : Database}
    {model : Model} (hsound : db.Sound) (h : Runs compares [.create model false] db db') :
    db.rows model.table = [] ∧ db'.rows = db.rows := by
  obtain ⟨between, hfollows, hnil⟩ := runs_cons.mp h
  cases hnil
  obtain ⟨-, hfits, -⟩ := Catalog.execute_createTable hsound.catalog hfollows.1
  have hempty := hsound.missing _ hfits.table
  have hrows : db'.rows = db.rowsAfter compares (.create model false) := hfollows.2
  refine ⟨hempty, ?_⟩
  rw [hrows, Statement.create, rowsAfter]
  simp only [hfits.table]
  rw [changeRows, ← hempty, Function.update_eq_self]

/-! ### The rows of one table -/

namespace Operation

open Backend AppSchema

variable {operation : Operation} {m m' : Model} {name : String} {names : List String}
  {fields : Fields}
  {change : Record → Record} {now : DateTime}

/-- What an operation makes of a row of its model: it fits the model that there is afterwards, and
it keeps the values of the fields that are not removed. -/
structure Turns (operation : Operation) (m m' : Model) (change : Record → Record) : Prop where
  fits : ∀ record : Record, record.Fits m.tableColumns → (change record).Fits m'.tableColumns
  retained : ∀ records, m.Retained (operation.removes · = true) m' records (records.map change)

/-- Adding fields turns rows into rows with the new columns filled. -/
theorem addFields_turns (hapart : List.Disjoint m.fields.names fields.names)
    (hcolumns : Model.columns { m with fields := m.fields ++ fields } |>.Nodup) :
    (addFields name fields).Turns m { m with fields := m.fields ++ fields }
      (Model.widen { m with fields := m.fields ++ fields } now fields.names) := by
  set m' : Model := { m with fields := m.fields ++ fields } with hm'
  have hall : m'.columns = m.columns ++ fields.map fun entry => entry.2.columnName entry.1 :=
    List.map_append
  have hnew : ∀ entry ∈ m'.fields, entry.1 ∈ fields.names → entry ∈ fields := by
    intro entry hentry hname
    refine (List.mem_append.mp hentry).resolve_left fun hold => ?_
    exact hapart (List.mem_map_of_mem hold) hname
  constructor
  · intro record hfits column
    rw [names_tableColumns, hall, List.mem_append, ← names_tableColumns, ← hfits column]
    unfold Model.widen
    cases hfind : m'.fields.find? fun entry =>
        entry.1 ∈ fields.names ∧ entry.2.columnName entry.1 = column with
    | some entry =>
        have hfound := List.find?_some hfind
        obtain ⟨hname, heq⟩ := of_decide_eq_true hfound
        have hentry := hnew entry (List.mem_of_find?_eq_some hfind) hname
        simp only [ne_eq, reduceCtorEq, not_false_eq_true, true_iff]
        exact .inr (heq ▸ List.mem_map_of_mem hentry)
    | none =>
        have hnot : column ∉ fields.map fun entry => entry.2.columnName entry.1 := by
          intro hin
          obtain ⟨entry, hentry, heq⟩ := List.mem_map.mp hin
          have hother := List.find?_eq_none.mp hfind entry (List.mem_append_right _ hentry)
          exact hother (decide_eq_true ⟨List.mem_map_of_mem hentry, heq⟩)
        simp [hnot]
  · refine fun records => .of_map rfl (fun field declared _ hfield => ⟨?_, fun record => ?_⟩)
      fun _ _ _ hindex => hindex
    · show (m.fields ++ fields).get? field = some declared
      rw [Named.get?_append, show m.fields.get? field = some declared from hfield, Option.some_or]
    · -- the column of a field that was there is not that of a new one
      unfold Model.widen
      rw [List.find?_eq_none.mpr]
      intro entry hentry hfound
      obtain ⟨hname, heq⟩ := of_decide_eq_true hfound
      have hold : (field, declared) ∈ m.fields := Named.mem_of_get? hfield
      have hsame := List.inj_on_of_nodup_map hcolumns hentry (List.mem_append_left _ hold) heq
      exact hapart (List.mem_map_of_mem hold) (hsame ▸ hname)

/-- Removing fields turns them into rows without the columns. -/
theorem removeFields_turns (hm : m.Sound) (hcolumns : m.columns.Nodup) :
    (removeFields name names).Turns m (m.withoutFields names) (m.narrow names) := by
  constructor
  · intro record hfits column
    rw [names_tableColumns, Database.columns_withoutFields hm hcolumns, List.mem_filter,
      ← names_tableColumns, ← hfits column]
    unfold Model.narrow Record.without
    by_cases hgone : column ∈ m.columnsOf names <;> simp [hgone]
  · refine fun records =>
      .of_map rfl (fun field declared hnot hfield => ?_) fun _ _ _ hindex => hindex
    have hkept : field ∉ names := by simpa [removes] using hnot
    refine ⟨(Model.field?_withoutFields hm hkept).trans hfield, fun record => if_neg ?_⟩
    exact mt (Model.mem_columnsOf_iff hm hcolumns (Named.mem_of_get? hfield)).mp hkept

/-- Adding an index leaves the rows. -/
theorem addIndex_turns {index : String} {covered : List String}
    (hnone : m.indexes.get? index = none) :
    (addIndex name index covered).Turns m
      { m with indexes := m.indexes.insert index covered } id := by
  refine ⟨fun record hfits => hfits, fun records =>
    .of_map rfl (fun _ _ _ hfield => ⟨hfield, fun _ => rfl⟩)
    fun other covered' _ hindex => ?_⟩
  have hne : index ≠ other := by
    rintro rfl
    rw [hnone] at hindex
    cases hindex
  exact (Named.get?_insert_ne hne).trans hindex

theorem removeIndex_turns {index : String} :
    (removeIndex name index).Turns m { m with indexes := m.indexes.erase index } id := by
  refine ⟨fun record hfits => hfits, fun records =>
    .of_map rfl (fun _ _ _ hfield => ⟨hfield, fun _ => rfl⟩)
    fun other covered hnot hindex => ?_⟩
  have hne : index ≠ other := by simpa [removes] using hnot
  show (m.indexes.erase index).get? other = some covered
  rw [Named.get?_erase, if_neg hne, hindex]

/-! ### One operation -/

section Forward

variable {σ : Type} {backend : Backend σ} {compares : Comparison → Value → Value → Truth}
  {contents : σ → Database} {before after : AppSchema} {s t : σ} {db db' : Database}
    {table : String}

theorem sameBut_of_spares {db db' : Catalog} {step : AppSchema.Step}
    (htable : operation.table? step = some table) (h : operation.Spares step db db') :
    db.SameBut table db' := by
  intro other hother
  refine h other ?_
  rw [htable]
  exact fun heq => hother (Option.some.inj heq).symm

/-- Where only one table has changed, and its rows belong to it, the database is as sound as
before. -/
theorem sound_of_changeRows {f : List Record → List Record} (hsound : db.Sound)
    (hheld : after.HeldBy db'.catalog) (hafter : after.models.Ordered)
    (hbut : db.catalog.SameBut table db'.catalog) (hrows : db'.rows = db.changeRows table f)
    (hmissing : db'.catalog.tables table = none → f (db.rows table) = [])
    (hfits : ∀ columns, db'.catalog.tables table = some columns →
      ∀ record ∈ f (db.rows table), record.Fits columns) : db'.Sound where
  catalog := hheld.sound
  columns _ _ := hheld.columns_nodup hafter
  missing other hnone := by
    rw [hrows, Database.changeRows]
    by_cases hother : other = table
    · subst hother
      rw [Function.update_self]
      exact hmissing hnone
    · rw [Function.update_of_ne hother]
      exact hsound.missing other (hbut other hother ▸ hnone)
  fits other columns htable record := by
    rw [hrows, Database.changeRows]
    by_cases hother : other = table
    · subst hother
      rw [Function.update_self]
      exact hfits columns htable record
    · rw [Function.update_of_ne hother]
      exact hsound.fits other columns (hbut other hother ▸ htable) record

/-- A model that an operation is not about keeps its rows. -/
theorem retained_of_ne {lost : Part → Prop} {f : List Record → List Record}
    (hne : m.table ≠ table) (hrows : db'.rows = db.changeRows table f) :
    m.Retained lost m (db.rows m.table) (db'.rows m.table) := by
  rw [hrows, Database.changeRows, Function.update_of_ne hne]
  exact .refl m _

/-- What a change of a model makes of the rows of its table. -/
theorem changes_rows (hkeeps : backend.Keeps compares contents) (hs : before.Sound)
    (hk : before.Keyed)
    (hm : before.model? m.name = some m) (hchange : m.Changes operation m') (hm' : m'.Sound)
    (hcolumns : m'.columns.Nodup) (hheld : before.HeldBy (contents s).catalog)
    (hsound : (contents s).Sound)
    (h : operation.forward backend ⟨before, before.withModel m'⟩ s = .ok () t) :
    ∃ change, operation.Turns m m' change ∧
      (contents t).rows = (contents s).changeRows m.table (List.map change) := by
  have htable := hheld.hasTable hs.ordered hm
  have hself : (before.withModel m').model? m.name = some m' := by
    rw [model?_withModel, hchange.name_eq, if_pos rfl]
  have hunmoved : ∀ {statement}, Database.Runs compares [statement] (contents s) (contents t) →
      (∀ db : Database, db.rowsAfter compares statement = db.rows) →
      (∀ table values, statement ≠ .insert table values) →
      (contents t).rows = (contents s).changeRows m.table (List.map id) := by
    intro statement hruns hsame hnot
    rw [Database.changeRows_id]
    refine hruns.rows_eq fun other hother db db' hfollows => ?_
    obtain rfl := List.mem_singleton.mp hother
    have hrows := hfollows.2
    cases other
    case insert => exact absurd rfl (hnot _ _)
    all_goals exact hrows.trans (hsame db)
  cases hchange with
  | @addFields fields hnames hapart =>
      obtain ⟨hwithout, -⟩ := withoutFields_of_addFields (hs.model _ _ hm) hapart rfl
      obtain ⟨picked, statements, hpicks, hindexes, hruns⟩ :=
        runs_of_widenTable (Session.toWork_eq_ok.mp (require_step hself h))
      have hkey : m.key ∉ fields.names := fun hin => hapart (hk _ _ hm).key_mem hin
      have hless := hs.model _ _ hm
      rw [← hwithout] at hless htable
      have hreshaped := (Database.Runs.of_backend hkeeps hruns).widened hsound hm' hless hkey htable
        hpicks hindexes
      exact ⟨_, addFields_turns hapart hcolumns, hreshaped.rows⟩
  | @removeFields names hnames hmem hfree =>
      obtain ⟨columns, statements, hdropped, hindexes, hruns⟩ := runs_of_narrowTable
        (Session.toWork_eq_ok.mp (require_step hself (require_step hm h)))
      have hreshaped := (Database.Runs.of_backend hkeeps hruns).narrowed hsound
        (hs.model _ _ hm) hm'
        htable hdropped hindexes
      exact ⟨_, removeFields_turns (hs.model _ _ hm) (hheld.separate.columns _ _ hm),
        hreshaped.rows⟩
  | @addIndex index fields hnone hfields =>
      obtain ⟨statement, hstatement, hruns⟩ :=
        runs_of_createIndex (Session.toWork_eq_ok.mp (require_step hself h))
      obtain ⟨covered, hcovered, rfl⟩ := Catalog.indexStatement_eq_ok hstatement
      exact ⟨_, addIndex_turns hnone, hunmoved (Database.Runs.of_backend hkeeps hruns)
        (fun _ => rfl) nofun⟩
  | @removeIndex index hindex =>
      have hruns := Runs.of_run (Session.toWork_eq_ok.mp h)
      exact ⟨_, removeIndex_turns, hunmoved (Database.Runs.of_backend hkeeps hruns)
        (fun _ => rfl) nofun⟩

/-- Let a sound database hold the state before an operation. If it carries the operation out it is
sound afterwards, it holds the state after the operation, and what the operation does not remove is
kept. -/
theorem forward_rows (hkeeps : backend.Keeps compares contents) (hs : before.Sound)
    (hk : before.Keyed)
    (happly : operation.Applies before after) (hafter : after.Sound)
    (hheld : before.HeldBy (contents s).catalog) (hsound : (contents s).Sound)
    (h : operation.forward backend ⟨before, after⟩ s = .ok () t) :
    after.HeldBy (contents t).catalog ∧ (contents t).Sound ∧
      before.Retained (fun name part => name = operation.model ∧
        operation.removes part = true) after
        (contents s) (contents t) := by
  have hcarries : backend.Carries fun s => (contents s).catalog :=
    fun statement s count t hexecute => (hkeeps statement s count t hexecute).1
  obtain ⟨hheld', hspares⟩ :=
    forward_held Catalog.likeness_perm hcarries hs happly hafter hheld h
  refine ⟨hheld', ?_⟩
  cases happly with
  | @createModel name table fields m hnone hparts =>
      obtain ⟨key, -, rfl⟩ := Model.ofParts_eq_ok hparts
      set m : Model := ⟨before.app, name, table.getD (usualTable before.app name), key,
        fields, []⟩ with hm
      have hself : (before.withModel m).model? m.name = some m := model?_withModel_self
      have hbut := sameBut_of_spares (table?_eq_of_none hnone hself) hspares
      have hruns := Database.Runs.of_backend hkeeps
        (Runs.of_run (Session.toWork_eq_ok.mp (require_step hself h)))
      obtain ⟨hempty, hrows⟩ := hruns.rows_create hsound
      have hsame : (contents t).rows = (contents s).changeRows m.table (List.map id) :=
        hrows.trans Database.changeRows_id.symm
      refine ⟨sound_of_changeRows hsound hheld' hafter.ordered hbut hsame ?_ ?_,
        fun other m' hm' _ => ?_⟩
      · intro _
        rw [hempty]
        rfl
      · intro columns _ record hrecord
        rw [hempty] at hrecord
        cases hrecord
      · have hne : other ≠ m.name := by
          rintro rfl
          cases hnone.symm.trans hm'
        have hthere : (before.withModel m).model? other = some m' := by
          rw [model?_withModel, if_neg hne.symm, hm']
        refine ⟨m', hthere, retained_of_ne ?_ hsame⟩
        exact (hheld'.separate.apart _ _ _ _ hthere hself hne).1
  | @deleteModel name m hm =>
      obtain rfl := hs.name_eq name m hm
      have hbut := sameBut_of_spares (table?_eq hm) hspares
      have hruns := Database.Runs.of_backend hkeeps
        (Runs.of_run (Session.toWork_eq_ok.mp (require_step hm h)))
      have hrows : (contents t).rows = (contents s).changeRows m.table fun _ => [] := by
        obtain ⟨between, hfollows, hnil⟩ := Database.runs_cons.mp hruns
        cases hnil
        exact hfollows.2
      refine ⟨sound_of_changeRows hsound hheld' hafter.ordered hbut hrows (fun _ => rfl)
        fun _ _ _ => nofun, fun other m' hm' hnot => ?_⟩
      have hne : other ≠ m.name := fun heq => hnot ⟨heq, rfl⟩
      refine ⟨m', ?_, retained_of_ne (hheld.separate.apart _ _ _ _ hm' hm hne).1 hrows⟩
      rw [model?_withoutModel, if_neg hne.symm, hm']
  | @change operation m m' hm hchange =>
      have hbut := sameBut_of_spares (table?_eq hm) hspares
      have hself : (before.withModel m').model? m'.name = some m' := model?_withModel_self
      have hname := hs.name_eq _ m hm
      rw [← hname] at hm
      obtain ⟨change, hturns, hrows⟩ :=
        changes_rows hkeeps hs hk hm hchange (hafter.model _ _ hself)
        (hheld'.separate.columns _ _ hself) hheld hsound h
      have hkept := hturns.retained ((contents s).rows m.table)
      obtain ⟨columns, hcolumns, hperm⟩ := (hheld.hasTable hs.ordered hm).columns
      obtain ⟨columns', hcolumns', hperm'⟩ := (hheld'.hasTable hafter.ordered hself).columns
      rw [hkept.table] at hcolumns'
      refine ⟨sound_of_changeRows hsound hheld' hafter.ordered hbut hrows ?_ ?_,
        fun other old hold hnot => ?_⟩
      · intro hnone
        rw [hcolumns'] at hnone
        cases hnone
      · intro found hfound record hrecord
        obtain rfl := Option.some.inj (hcolumns'.symm.trans hfound)
        obtain ⟨old, hold, rfl⟩ := List.mem_map.mp hrecord
        have hfits := hsound.fits _ _ hcolumns old hold
        exact (Record.fits_perm hperm').mpr (hturns.fits old ((Record.fits_perm hperm).mp hfits))
      · rw [model?_withModel, hchange.name_eq]
        by_cases hother : m.name = other
        · subst hother
          obtain rfl := Option.some.inj (hm.symm.trans hold)
          refine ⟨m', if_pos rfl, ?_⟩
          rw [hrows, Database.changeRows, Function.update_self]
          exact hkept.mono fun part hpart => ⟨hname, hpart⟩
        · refine ⟨old, (if_neg hother).trans hold, retained_of_ne ?_ hrows⟩
          exact (hheld.separate.apart _ _ _ _ hold hm (Ne.symm hother)).1

end Forward

end Operation

end SchemaHistory
