import SchemaHistory.Proofs.Named
import SchemaHistory.Proofs.Sessions

/-!
# The statements of a change to a table

For each change to a table, the statements that it has run where it succeeded: `renewal`,
`widening` and `narrowing`. The checks that a change makes on its way are what the statements are
given together with: the fields that are named exist, and a column that refuses nulls has something
to fill it with.
-/

namespace SchemaHistory.Backend

variable {σ : Type} {backend : Backend σ} {model old new : Model} {s t : σ}

/-! ### Building a table anew -/

/-- The statements that build a table anew, followed by those that create its indexes. -/
def renewal (model : Model) (columns : List String) (indexes : List Statement) : List Statement :=
  [.create (model.inTable (shadowName model.table)) false,
    .copyRows model.table (shadowName model.table) columns,
    .dropTable model.table,
    .renameTable (shadowName model.table) model.table] ++ indexes

/-- An index is created by the one statement for it. -/
theorem runs_of_createIndex {index : String} (h : backend.createIndex model index s = .ok () t) :
    ∃ statement, indexStatement model index = .ok statement ∧ backend.Runs [statement] s t := by
  obtain ⟨statement, u, hanswer, hrun⟩ := bind_eq_ok.mp h
  obtain ⟨hstatement, rfl⟩ := Session.ofExcept_eq_ok.mp hanswer
  exact ⟨statement, hstatement, Runs.of_run hrun⟩

theorem runs_of_createIndexes {names : List String}
    (h : names.forM (backend.createIndex model) s = .ok () t) :
    ∃ statements, names.mapM (indexStatement model) = .ok statements ∧
      backend.Runs statements s t := by
  obtain ⟨statements, hstatements, hruns⟩ :=
    Runs.of_forM (f := backend.createIndex model)
      (P := fun index statement => indexStatement model index = .ok statement)
      (fun _ _ _ => runs_of_createIndex) h
  exact ⟨statements, Except.mapM_eq_ok.mpr hstatements, hruns⟩

/-- A table that was built anew has run the statements of `renewal`. -/
theorem runs_of_renewTable {columns : List String}
    (h : backend.renewTable model columns s = .ok () t) :
    ∃ indexes, model.indexes.names.mapM (indexStatement model) = .ok indexes ∧
      backend.Runs (renewal model columns indexes) s t := by
  obtain ⟨⟨⟩, s₁, hcreate, h⟩ := bind_eq_ok.mp h
  obtain ⟨⟨⟩, s₂, hcopy, h⟩ := bind_eq_ok.mp h
  obtain ⟨⟨⟩, s₃, hdrop, h⟩ := bind_eq_ok.mp h
  obtain ⟨⟨⟩, s₄, hrename, h⟩ := bind_eq_ok.mp h
  obtain ⟨indexes, hindexes, hruns⟩ := runs_of_createIndexes h
  refine ⟨indexes, hindexes, ?_⟩
  exact (Runs.of_run hcreate).append <| (Runs.of_run hcopy).append <|
    (Runs.of_run hdrop).append <| (Runs.of_run hrename).append hruns

theorem runs_of_restoreTable (h : Operation.restoreTable backend model s = .ok () t) :
    ∃ indexes, model.indexes.names.mapM (indexStatement model) = .ok indexes ∧
      backend.Runs (.create model false :: indexes) s t := by
  obtain ⟨⟨⟩, s₁, hcreate, h⟩ := bind_eq_ok.mp h
  obtain ⟨indexes, hindexes, hruns⟩ := runs_of_createIndexes h
  exact ⟨indexes, hindexes, (Runs.of_run hcreate).append hruns⟩

/-! ### Adding columns -/

/-- What is known about the columns being added once a further field is among them. -/
def Adding.add (inPlace : Bool) (now : DateTime) (adding : Adding) (entry : String × Field) :
    Adding where
  fill := if entry.2.null then adding.fill else match entry.2.filling now with
    | some value => adding.fill.insert entry.1 value
    | none => adding.fill
  notNull := if entry.2.null then adding.notNull
    else adding.notNull ++ [entry.2.columnName entry.1]
  rebuild := adding.rebuild || (!inPlace && (!entry.2.null || entry.2.unique))

/-- A field that can be added to a table that has rows: its column accepts nulls, or there is
something to fill it with. -/
def CanFill (now : DateTime) (field : Field) : Prop :=
    field.null ∨ ∃ value, field.filling now = some value

/-- The fields of a model with the given names, each of which can be added. -/
structure Picks (now : DateTime) (model : Model) (names : List String) (fields : Fields) :
    Prop where
  names_eq : fields.names = names
  field? : ∀ entry ∈ fields, model.field? entry.1 = some entry.2
  canFill : ∀ entry ∈ fields, CanFill now entry.2

/-- The statement that adds the column of a field, weakened so that it fits. -/
def addition (inPlace : Bool) (table : String) (entry : String × Field) : Statement :=
  .addColumn table (looseColumn inPlace (entry.2.columnName entry.1) entry.2)

/-- A column that was added has run its statement, and is left to be filled. -/
theorem runs_of_addColumn {adding after : Adding} {name : String}
    (h : backend.addColumn model adding name s = .ok after t) :
    ∃ field, model.field? name = some field ∧ CanFill backend.now field ∧
      after = adding.add backend.dialect.capabilities.altersNullability backend.now (name, field) ∧
      backend.Runs
        [addition backend.dialect.capabilities.altersNullability model.table
          (name, field)] s t := by
  unfold addColumn at h
  cases hfield : model.field? name with
  | none =>
      simp only [hfield] at h
      exact absurd h throw_ne_ok
  | some field =>
      simp only [hfield] at h
      refine ⟨field, rfl, ?_⟩
      -- a column that refuses nulls needs something to fill the rows with
      cases hnull : field.null with
      | true =>
          simp only [hnull] at h
          obtain ⟨before, u, hbefore, h⟩ := bind_eq_ok.mp h
          obtain ⟨rfl, rfl⟩ := pure_eq_ok.mp hbefore
          obtain ⟨⟨⟩, u, hrun, h⟩ := bind_eq_ok.mp h
          obtain ⟨rfl, rfl⟩ := pure_eq_ok.mp h
          exact ⟨Or.inl hnull, by simp [Adding.add, hnull], Runs.of_run hrun⟩
      | false =>
          cases hvalue : field.filling backend.now with
          | none =>
              simp only [hnull, hvalue] at h
              obtain ⟨before, u, hbefore, -⟩ := bind_eq_ok.mp h
              exact absurd hbefore throw_ne_ok
          | some value =>
              simp only [hnull, hvalue] at h
              obtain ⟨before, u, hbefore, h⟩ := bind_eq_ok.mp h
              obtain ⟨rfl, rfl⟩ := pure_eq_ok.mp hbefore
              obtain ⟨⟨⟩, u, hrun, h⟩ := bind_eq_ok.mp h
              obtain ⟨rfl, rfl⟩ := pure_eq_ok.mp h
              exact ⟨Or.inr ⟨value, hvalue⟩, by simp [Adding.add, hnull, hvalue], Runs.of_run hrun⟩

/-- By induction on the fields: their statements in turn, and what is left to do collected. -/
theorem runs_of_addColumns {start adding : Adding} {names : List String}
    (h : names.foldlM (backend.addColumn model) start s = .ok adding t) :
    ∃ fields : Fields, Picks backend.now model names fields ∧
      adding = fields.foldl
        (Adding.add backend.dialect.capabilities.altersNullability backend.now) start ∧
      backend.Runs (fields.map
        (addition backend.dialect.capabilities.altersNullability model.table)) s t := by
  induction names generalizing start s with
  | nil =>
      obtain ⟨rfl, rfl⟩ := pure_eq_ok.mp h
      exact ⟨[], ⟨rfl, by simp, by simp⟩, rfl, Runs.nil _⟩
  | cons name names ih =>
      rw [List.foldlM_cons] at h
      obtain ⟨after, u, hadd, h⟩ := bind_eq_ok.mp h
      obtain ⟨field, hfield, hfill, rfl, hrun⟩ := runs_of_addColumn hadd
      obtain ⟨fields, hpicks, rfl, hruns⟩ := ih h
      refine ⟨(name, field) :: fields, ⟨?_, ?_, ?_⟩, rfl, hrun.append hruns⟩
      · rw [Named.names_cons, hpicks.names_eq]
      · exact List.forall_mem_cons.mpr ⟨hfield, hpicks.field?⟩
      · exact List.forall_mem_cons.mpr ⟨hfill, hpicks.canFill⟩

/-- The statement that fills new columns in all rows, if there is something to fill. -/
def filling (model : Model) (fill : Row) : List Statement :=
  match updateValues model fill with
  | [] => []
  | assigned => [.update model.table assigned .empty]

theorem runs_of_fill {fill : Row} {count : Nat}
    (h : backend.update model fill .empty s = .ok count t) :
    backend.Runs (filling model fill) s t := by
  unfold update at h
  unfold filling
  cases hvalues : updateValues model fill with
  | nil =>
      simp only [hvalues] at h
      obtain ⟨-, rfl⟩ := pure_eq_ok.mp h
      exact Runs.nil s
  | cons head tail =>
      simp only [hvalues] at h
      obtain ⟨condition, u, hanswer, h⟩ := bind_eq_ok.mp h
      obtain ⟨hcondition, rfl⟩ := Session.ofExcept_eq_ok.mp hanswer
      cases hcondition
      exact Runs.of_execute h

theorem filling_of_isEmpty {fill : Row} (h : fill.isEmpty = true) : filling model fill = [] := by
  have hvalues : updateValues model fill = [] := by
    rw [List.isEmpty_iff.mp h, updateValues, List.filterMap_eq_nil_iff]
    rintro ⟨name, field⟩ -
    simp only [Named.get?_nil, Option.map_none, ite_self]
  rw [filling, hvalues]

/-- The statements that put the constraints of new columns in place, or build the table anew. -/
def tightening (inPlace : Bool) (model : Model) (adding : Adding) (indexes : List Statement) :
    List Statement :=
  if adding.rebuild then renewal model model.columns indexes
  else if inPlace then adding.notNull.map (.setNotNull model.table)
  else []

def widening (inPlace : Bool) (now : DateTime) (model : Model) (fields : Fields)
    (indexes : List Statement) : List Statement :=
  let adding := fields.foldl (Adding.add inPlace now) {}
  fields.map (addition inPlace model.table) ++ filling model adding.fill ++
    tightening inPlace model adding indexes

theorem runs_of_setNotNulls {columns : List String}
    (h : columns.forM (fun column => backend.run (.setNotNull model.table column)) s = .ok () t) :
    backend.Runs (columns.map (.setNotNull model.table)) s t := by
  obtain ⟨statements, hstatements, hruns⟩ :=
    Runs.of_forM (P := fun column statement => statement = .setNotNull model.table column)
      (fun column s t hrun => ⟨_, rfl, Runs.of_run hrun⟩) h
  have heq : statements = columns.map (.setNotNull model.table) := by
    clear h hruns
    induction hstatements with
    | nil => rfl
    | cons hx _ ih => rw [hx, ih, List.map_cons]
  rwa [← heq]

/-- A table that was widened has run additions, the filling, and then in place or anew what made it
strict. -/
theorem runs_of_widenTable {names : List String} (h : backend.widenTable model names s = .ok () t) :
    ∃ fields indexes, Picks backend.now model names fields ∧
      ((fields.foldl (Adding.add backend.dialect.capabilities.altersNullability backend.now)
          {}).rebuild = true →
        model.indexes.names.mapM (indexStatement model) = .ok indexes) ∧
      backend.Runs (widening backend.dialect.capabilities.altersNullability backend.now model fields
        indexes) s t := by
  obtain ⟨adding, u, hadd, h⟩ := bind_eq_ok.mp h
  obtain ⟨fields, hpicks, rfl, hadds⟩ := runs_of_addColumns hadd
  set adding := fields.foldl
    (Adding.add backend.dialect.capabilities.altersNullability backend.now) {} with hadding
  -- what comes after the filling is the same whether there was something to fill or not
  have hrest : ∀ v, (if adding.rebuild = true then backend.renewTable model model.columns
      else if backend.dialect.capabilities.altersNullability = true then
        adding.notNull.forM fun column => backend.run (.setNotNull model.table column)
      else pure ()) v = .ok () t →
      ∃ indexes, (adding.rebuild = true →
          model.indexes.names.mapM (indexStatement model) = .ok indexes) ∧
        backend.Runs (tightening backend.dialect.capabilities.altersNullability model adding
          indexes) v t := by
    intro v hv
    unfold tightening
    split at hv
    · next hrebuild =>
        obtain ⟨indexes, hindexes, hruns⟩ := runs_of_renewTable hv
        exact ⟨indexes, fun _ => hindexes, by rwa [if_pos hrebuild]⟩
    · next hrebuild =>
        refine ⟨[], fun hr => absurd hr hrebuild, ?_⟩
        rw [if_neg hrebuild]
        split at hv
        · next hplace =>
            rw [if_pos hplace]
            exact runs_of_setNotNulls hv
        · next hplace =>
            obtain ⟨-, rfl⟩ := pure_eq_ok.mp hv
            rw [if_neg hplace]
            exact Runs.nil v
  split at h
  · obtain ⟨count, v, hfill, h⟩ := bind_eq_ok.mp h
    obtain ⟨indexes, hindexes, hruns⟩ := hrest v h
    exact ⟨fields, indexes, hpicks, hindexes,
      (hadds.append (runs_of_fill hfill)).append hruns⟩
  · next hempty =>
      obtain ⟨indexes, hindexes, hruns⟩ := hrest u h
      refine ⟨fields, indexes, hpicks, hindexes, ?_⟩
      simp only [widening]
      rw [← hadding, filling_of_isEmpty (by simpa using hempty), List.append_nil]
      exact hadds.append hruns

/-! ### Dropping columns -/

/-- The statements that drop columns, in place or by building the table anew. -/
def narrowing (inPlace : Bool) (old new : Model) (columns : List String)
    (indexes : List Statement) : List Statement :=
  if inPlace then columns.map (.dropColumn old.table) else renewal new new.columns indexes

theorem runs_of_dropColumn {name : String} (h : backend.dropColumn old name s = .ok () t) :
    ∃ column, old.column name = .ok column ∧ backend.Runs [.dropColumn old.table column] s t := by
  obtain ⟨column, u, hanswer, hrun⟩ := bind_eq_ok.mp h
  obtain ⟨hcolumn, rfl⟩ := Session.ofExcept_eq_ok.mp hanswer
  exact ⟨column, hcolumn, Runs.of_run hrun⟩

theorem runs_of_dropColumns {names : List String}
    (h : names.forM (backend.dropColumn old) s = .ok () t) :
    ∃ columns, names.mapM old.column = .ok columns ∧
      backend.Runs (columns.map (.dropColumn old.table)) s t := by
  induction names generalizing s with
  | nil =>
      obtain rfl := forM_nil_eq_ok.mp h
      exact ⟨[], rfl, Runs.nil s⟩
  | cons name names ih =>
      obtain ⟨u, hname, hnames⟩ := forM_cons_eq_ok.mp h
      obtain ⟨column, hcolumn, hrun⟩ := runs_of_dropColumn hname
      obtain ⟨columns, hcolumns, hruns⟩ := ih hnames
      refine ⟨column :: columns, ?_, hrun.append hruns⟩
      exact Except.mapM_eq_ok.mpr (List.Forall₂.cons hcolumn (Except.mapM_eq_ok.mp hcolumns))

theorem runs_of_narrowTable {names : List String}
    (h : backend.narrowTable old new names s = .ok () t) :
    ∃ columns indexes, names.mapM old.column = .ok columns ∧
      (backend.dialect.capabilities.dropsColumns = false →
        new.indexes.names.mapM (indexStatement new) = .ok indexes) ∧
      backend.Runs
        (narrowing backend.dialect.capabilities.dropsColumns old new columns indexes) s t := by
  unfold narrowTable at h
  unfold narrowing
  split at h
  · next hplace =>
      obtain ⟨columns, hcolumns, hruns⟩ := runs_of_dropColumns h
      refine ⟨columns, [], hcolumns, fun hnot => ?_, by rwa [if_pos hplace]⟩
      rw [hplace] at hnot
      cases hnot
  · next hplace =>
      obtain ⟨columns, u, hanswer, h⟩ := bind_eq_ok.mp h
      obtain ⟨hcolumns, rfl⟩ := Session.ofExcept_eq_ok.mp hanswer
      obtain ⟨indexes, hindexes, hruns⟩ := runs_of_renewTable h
      exact ⟨columns, indexes, hcolumns, fun _ => hindexes, by rwa [if_neg hplace]⟩

end SchemaHistory.Backend
