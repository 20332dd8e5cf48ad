import SchemaHistory.Proofs.AlikeStates
import SchemaHistory.Proofs.InPlaceOrAnew

/-!
# What operations go by

An operation goes by the parts of its model that it concerns. Where another model has these as well,
the operation makes an edit of that one too (`Operation.Edits.exists_of_same`). It then asks a
database for the same statements (`Operation.forward_eq`), provided that the table is changed in
place: a table that is built anew is built with all parts of the model.
-/

namespace SchemaHistory

namespace Operation

/-! ### Operations on one part of a model -/

/-- The operation changes the table of its model without building it anew. -/
def InPlace (capabilities : Capabilities) : Operation → Prop
  | addFields _ fields => capabilities.altersNullability = true ∨
      ∀ entry ∈ fields, entry.2.null = true ∧ entry.2.unique = false
  | removeFields .. => capabilities.dropsColumns = true
  | _ => True

variable {app : String} {operation : Operation} {r r' a b : Option Model}

/-- The fields that are found in one model are found in another one that has them. -/
theorem mem_names_of_same {m m' : Model} {name : String}
    (hsame : (Part.field name).Same (some m) (some m')) :
    name ∈ m.fields.names ↔ name ∈ m'.fields.names := by
  have hfield : m.fields.get? name = m'.fields.get? name := hsame
  rw [Named.mem_names_iff, Named.mem_names_iff, hfield]

/-- An operation that makes an edit of a model makes one of another model too, if that has the parts
that the operation concerns, and if no index of it is over a field to be removed. -/
theorem Edits.exists_of_same (h : operation.Edits app r r')
    (hsame : ∀ part, operation.concerns part = true → part.Same r a)
    (hfree : ∀ name names m, operation = .removeFields name names → a = some m →
      ∀ field ∈ names, m.isIndexed field = false) :
    ∃ b, operation.Edits app a b := by
  have hshell := hsame .shell concerns_shell
  cases h with
  | createModel hparts =>
      obtain rfl := hshell.eq_none
      exact ⟨_, .createModel hparts⟩
  | deleteModel =>
      obtain ⟨m', rfl, -⟩ := hshell.exists_model
      exact ⟨_, .deleteModel⟩
  | @addFields name m fields hnodup hapart hkeys =>
      obtain ⟨m', rfl, -⟩ := hshell.exists_model
      refine ⟨_, .addFields hnodup (fun field hold hnew => ?_) hkeys⟩
      have hpart := hsame (.field field)
        (concerns_of_changes (by simpa [Operation.changes] using hnew))
      exact hapart ((mem_names_of_same hpart).mpr hold) hnew
  | @removeFields name m names hnodup hnames hkey =>
      obtain ⟨m', rfl, -, -, -, hkey'⟩ := hshell.exists_model
      refine ⟨_, .removeFields hnodup (fun field hfield => ?_) (hkey' ▸ hkey)
        (hfree name names m' rfl rfl)⟩
      have hpart := hsame (.field field)
        (concerns_of_changes (by simpa [Operation.changes] using hfield))
      exact (mem_names_of_same hpart).mp (hnames field hfield)
  | @addIndex name index m fields hnone hempty hfields =>
      obtain ⟨m', rfl, -⟩ := hshell.exists_model
      have hindex := hsame (.index index) (concerns_of_changes (by simp [Operation.changes]))
      refine ⟨_, .addIndex (Eq.symm hindex |>.trans hnone) hempty fun field hfield => ?_⟩
      have hpart := hsame (.field field) (by simp [concerns, hfield])
      exact (mem_names_of_same hpart).mp (hfields field hfield)
  | @removeIndex name index m hindex =>
      obtain ⟨m', rfl, -⟩ := hshell.exists_model
      have hpart : m.indexes.get? index = m'.indexes.get? index :=
        hsame (.index index) (concerns_of_changes (by simp [Operation.changes]))
      refine ⟨_, .removeIndex ?_⟩
      rw [Named.mem_names_iff, ← hpart]
      exact Named.mem_names_iff.mp hindex

end Operation

/-! ### The same changes to tables -/

namespace Backend

variable {σ : Type} {backend : Backend σ} {m m' : Model} {fields : Fields} {names : List String}
  {name index : String} {fill : Row} {s : σ}

theorem column_congr (hname : m'.name = m.name) (hfield : m'.field? name = m.field? name) :
    m'.column name = m.column name := by
  rw [Model.column, Model.column, hfield, hname]

/-- The statement for a column depends on the name of the model, its table and that one field. -/
theorem addColumn_congr {adding : Adding} (hname : m'.name = m.name) (htable : m'.table = m.table)
    (hfield : m'.field? name = m.field? name) :
    backend.addColumn m' adding name = backend.addColumn m adding name := by
  rw [addColumn, addColumn, hfield, hname, htable]

theorem addColumns_congr {adding : Adding} (hname : m'.name = m.name) (htable : m'.table = m.table)
    (hfields : ∀ name ∈ names, m'.field? name = m.field? name) :
    names.foldlM (backend.addColumn m') adding = names.foldlM (backend.addColumn m) adding := by
  induction names generalizing adding with
  | nil => rfl
  | cons name names ih =>
      obtain ⟨hfirst, hrest⟩ := List.forall_mem_cons.mp hfields
      rw [List.foldlM_cons, List.foldlM_cons, addColumn_congr hname htable hfirst]
      exact congrArg (backend.addColumn m adding name >>= ·) (funext fun next => ih hrest)

/-- An update of new fields does not go by the others. -/
theorem updateValues_append (hfill : ∀ name ∈ m.fields.names, fill.get? name = none) :
    updateValues { m with fields := m.fields ++ fields } fill
      = updateValues { m with fields := fields } fill := by
  have hold : updateValues m fill = [] := by
    refine List.filterMap_eq_nil_iff.mpr fun entry hentry => ?_
    simp [hfill entry.1 (List.mem_map_of_mem hentry)]
  have happend : updateValues { m with fields := m.fields ++ fields } fill
      = updateValues m fill ++ updateValues { m with fields := fields } fill :=
    List.filterMap_append
  rw [happend, hold, List.nil_append]

/-- No table is built anew where each of the new columns can be added as it is, or changed in
place. -/
theorem rebuild_eq_false {inPlace : Bool} {now : DateTime} {start : Adding}
    (hplace : inPlace = true ∨ ∀ entry ∈ fields, entry.2.null = true ∧ entry.2.unique = false)
    (hstart : start.rebuild = false) :
    (fields.foldl (Adding.add inPlace now) start).rebuild = false := by
  induction fields generalizing start with
  | nil => exact hstart
  | cons entry rest ih =>
      rw [List.foldl_cons]
      refine ih (hplace.imp_right fun h other hother => h other (List.mem_cons_of_mem _ hother)) ?_
      show (start.rebuild || (!inPlace && (!entry.2.null || entry.2.unique))) = false
      rcases hplace with rfl | hplace
      · simp [hstart]
      · obtain ⟨hnull, hunique⟩ := hplace entry List.mem_cons_self
        simp [hstart, hnull, hunique]

/-- Tables that are widened in place by the same columns are widened by the same statements. -/
theorem widenTable_congr (hname : m'.name = m.name) (htable : m'.table = m.table)
    (hfields : ∀ name ∈ names, m'.field? name = m.field? name)
    (hvalues : ∀ fill : Row, (∀ name, name ∉ names → fill.get? name = none) →
      updateValues m' fill = updateValues m fill)
    (hplace : backend.dialect.capabilities.altersNullability = true ∨
      ∀ name ∈ names, ∀ field, m.field? name = some field →
        field.null = true ∧ field.unique = false) :
    backend.widenTable m' names s = backend.widenTable m names s := by
  unfold widenTable
  rw [addColumns_congr hname htable hfields]
  show EStateM.bind _ _ s = EStateM.bind _ _ s
  unfold EStateM.bind
  cases hadds : names.foldlM (backend.addColumn m) {} s with
  | error e t => rfl
  | ok adding t =>
      obtain ⟨fields, hpicks, rfl, -⟩ := runs_of_addColumns hadds
      set adding := fields.foldl
        (Adding.add backend.dialect.capabilities.altersNullability backend.now) {} with hadding
      have hrebuild : adding.rebuild = false := by
        refine rebuild_eq_false (hplace.imp_right fun h entry hentry => ?_) rfl
        exact h entry.1 (hpicks.names_eq ▸ List.mem_map_of_mem hentry) entry.2
          (hpicks.field? entry hentry)
      -- what is filled are the new columns
      have hupdate : backend.update m' adding.fill .empty =
        backend.update m adding.fill .empty := by
        have hsame := hvalues adding.fill fun name hnot => by
          rw [← hpicks.names_eq] at hnot
          rw [hadding, fill_of_not_mem hnot]
          rfl
        unfold update
        rw [hsame, htable]
        rfl
      simp only [hupdate, hrebuild, htable, Bool.false_eq_true, if_false]

theorem dropColumn_congr (hname : m'.name = m.name) (htable : m'.table = m.table)
    (hfield : m'.field? name = m.field? name) :
    backend.dropColumn m' name = backend.dropColumn m name := by
  rw [dropColumn, dropColumn, column_congr hname hfield, htable]

/-- Tables that are narrowed in place by the same columns are narrowed by the same statements. -/
theorem narrowTable_congr {new new' : Model} (hname : m'.name = m.name)
    (htable : m'.table = m.table)
    (hfields : ∀ name ∈ names, m'.field? name = m.field? name)
    (hplace : backend.dialect.capabilities.dropsColumns = true) :
    backend.narrowTable m' new' names = backend.narrowTable m new names := by
  unfold narrowTable
  rw [if_pos hplace, if_pos hplace]
  induction names with
  | nil => rfl
  | cons name names ih =>
      obtain ⟨hfirst, hrest⟩ := List.forall_mem_cons.mp hfields
      show (backend.dropColumn m' name >>= fun _ => names.forM (backend.dropColumn m'))
        = (backend.dropColumn m name >>= fun _ => names.forM (backend.dropColumn m))
      rw [dropColumn_congr hname htable hfirst, ih hrest]

/-- The statement for an index depends on the fields that it covers. -/
theorem createIndex_congr (hname : m'.name = m.name) (htable : m'.table = m.table)
    (hindex : m'.indexes.get? index = m.indexes.get? index)
    (hfields : ∀ covered, m.indexes.get? index = some covered →
      ∀ name ∈ covered, m'.field? name = m.field? name) :
    backend.createIndex m' index = backend.createIndex m index := by
  have hstatement : indexStatement m' index = indexStatement m index := by
    unfold indexStatement
    rw [hindex]
    cases hcovered : m.indexes.get? index with
    | none => simp only [Model.fault, hname]
    | some covered =>
        have hcolumns : covered.mapM m'.column = covered.mapM m.column := by
          have hall := hfields covered hcovered
          clear hcovered
          induction covered with
          | nil => rfl
          | cons name covered ih =>
              obtain ⟨hfirst, hrest⟩ := List.forall_mem_cons.mp hall
              rw [List.mapM_cons, List.mapM_cons, column_congr hname hfirst, ih hrest]
        simp only [hcolumns, htable]
  rw [createIndex, createIndex, hstatement]

end Backend

namespace Operation

open Backend

variable {σ : Type} {backend : Backend σ} {operation : Operation} {app : String} {x : σ}
  {before after before' after' : AppSchema} {name : String} {m : Model}

theorem require_eq (h : before.model? name = some m) : before.require name = .ok m := by
  rw [AppSchema.require, h]

/-- What an operation does to a database depends on nothing but its model. -/
theorem forward_congr {step step' : AppSchema.Step} (hbefore : step.before.app = step'.before.app)
    (hafter : step.after.app = step'.after.app)
    (hold : step.before.model? operation.model = step'.before.model? operation.model)
    (hnew : step.after.model? operation.model = step'.after.model? operation.model) :
    operation.forward backend step = operation.forward backend step' := by
  have hrequire : step.before.require operation.model = step'.before.require operation.model := by
    unfold AppSchema.require AppSchema.fault
    rw [hold, hbefore]
  have hrequire' : step.after.require operation.model = step'.after.require operation.model := by
    unfold AppSchema.require AppSchema.fault
    rw [hnew, hafter]
  cases operation <;> simp only [forward, model] at hrequire hrequire' ⊢ <;>
    simp only [hrequire, hrequire']

/-- What an operation does to a database in place depends on nothing but the parts that it
concerns. -/
theorem forward_eq (hplace : operation.InPlace backend.dialect.capabilities)
    (hedit : operation.Edits app (before.model? operation.model) (after.model? operation.model))
    (hedit' : operation.Edits app (before'.model? operation.model) (after'.model? operation.model))
    (hsame : ∀ part, operation.concerns part = true →
      part.Same (before.model? operation.model) (before'.model? operation.model)) :
    operation.forward backend ⟨before, after⟩ x =
      operation.forward backend ⟨before', after'⟩ x := by
  generalize hr : before.model? operation.model = r at hedit hsame
  generalize hb : after.model? operation.model = b at hedit
  generalize ha : before'.model? operation.model = a at hedit' hsame
  generalize hb' : after'.model? operation.model = b' at hedit'
  have hshell := hsame .shell concerns_shell
  cases hedit with
  | createModel hparts =>
      cases hedit' with
      | createModel hparts' =>
          obtain rfl := Except.ok.inj (hparts.symm.trans hparts')
          simp only [model] at hb hb'
          simp only [forward, require_eq hb, require_eq hb']
  | deleteModel =>
      cases hedit'
      obtain ⟨-, htable, -⟩ := hshell.of_shell
      simp only [model] at hr ha
      simp only [forward, require_eq hr, require_eq ha]
      show Session.toWork (backend.dropTable _) x = Session.toWork (backend.dropTable _) x
      rw [dropTable, dropTable, htable]
  | @addFields _ m fields hnodup hapart =>
      cases hedit' with
      | @addFields _ m' _ _ hapart' =>
          obtain ⟨hname, htable, hkey⟩ := hshell.of_shell
          simp only [model] at hb hb'
          simp only [forward, require_eq hb, require_eq hb']
          have hnew : ∀ name ∈ fields.names, ∀ m : Model,
            List.Disjoint m.fields.names fields.names →
              Model.field? { m with fields := m.fields ++ fields } name = fields.get? name := by
            intro name hmem m hapart
            have hnone := Named.get?_eq_none_iff.mpr fun hin => hapart hin hmem
            show (m.fields ++ fields).get? name = fields.get? name
            rw [Named.get?_append, hnone, Option.none_or]
          have hwiden :
              backend.widenTable { m' with fields := m'.fields ++ fields } fields.names x
                = backend.widenTable { m with fields := m.fields ++ fields } fields.names x :=
            widenTable_congr hname htable
              (fun name hmem => (hnew name hmem m' hapart').trans (hnew name hmem m hapart).symm)
              (fun fill hfill => by
                rw [updateValues_append fun name hold => hfill name fun hin => hapart' hold hin,
                  updateValues_append fun name hold => hfill name fun hin => hapart hold hin]
                unfold updateValues
                rw [hkey])
              (hplace.imp_right fun h name hmem field hfield =>
                h (name, field) (Named.mem_of_get? ((hnew name hmem m hapart).symm.trans hfield)))
          show EStateM.adaptExcept _ _ x = EStateM.adaptExcept _ _ x
          unfold EStateM.adaptExcept
          rw [hwiden]
  | @removeFields _ m names =>
      cases hedit' with
      | @removeFields _ m' =>
          obtain ⟨hname, htable, -⟩ := hshell.of_shell
          simp only [model] at hr ha hb hb'
          simp only [forward, require_eq hr, require_eq ha, require_eq hb, require_eq hb']
          have hfields : ∀ field ∈ names, m'.field? field = m.field? field := fun field hfield =>
            Eq.symm (hsame (.field field)
              (concerns_of_changes (by simpa [Operation.changes] using hfield)))
          show Session.toWork (backend.narrowTable _ _ names) x
            = Session.toWork (backend.narrowTable _ _ names) x
          rw [narrowTable_congr hname htable hfields hplace]
  | @addIndex _ index m fields =>
      cases hedit' with
      | @addIndex _ _ m' =>
          obtain ⟨hname, htable, -⟩ := hshell.of_shell
          simp only [model] at hb hb'
          simp only [forward, require_eq hb, require_eq hb']
          have hcreate :
              backend.createIndex { m' with indexes := m'.indexes.insert index fields } index
                = backend.createIndex { m with indexes := m.indexes.insert index fields } index :=
            createIndex_congr hname htable
              (Named.get?_insert_self.trans Named.get?_insert_self.symm)
              (fun covered hcovered field hfield => by
                obtain rfl : fields = covered :=
                  Option.some.inj (Named.get?_insert_self.symm.trans hcovered)
                exact Eq.symm (hsame (.field field) (by simp [concerns, hfield])))
          show Session.toWork (backend.createIndex _ index) x
            = Session.toWork (backend.createIndex _ index) x
          rw [hcreate]
  | removeIndex => rfl

end Operation

end SchemaHistory
