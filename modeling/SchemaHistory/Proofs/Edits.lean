import SchemaHistory.Proofs.Replay

/-!
# What an operation does to its model

An operation reads and changes one entry of a state, the model that it names. `Operation.Edits` says
what it makes of this entry and when it can: of a sound state an operation makes what its edit says,
and it is refused where there is no edit (`Operation.apply_eq_ok_iff`). Operations on one model are
carried out one after the other by `Operation.EditsAll`.
-/

namespace SchemaHistory

namespace Operation

/-- What an operation in an app makes of the model it names. There may be no model before or
after. -/
inductive Edits (app : String) : Operation → Option Model → Option Model → Prop where
  | createModel {name : String} {table : Option String} {fields : Fields} {m : Model} :
      Model.ofParts app name (table.getD (usualTable app name)) fields [] = .ok m →
      Edits app (.createModel name table fields) none (some m)
  | deleteModel {name : String} {m : Model} : Edits app (.deleteModel name) (some m) none
  | addFields {name : String} {m : Model} {fields : Fields} :
      fields.names.Nodup → List.Disjoint m.fields.names fields.names →
      (∀ entry ∈ fields, entry.2.isPrimaryKey = false) →
      Edits app (.addFields name fields) (some m) (some { m with fields := m.fields ++ fields })
  | removeFields {name : String} {m : Model} {names : List String} :
      names.Nodup → (∀ name ∈ names, name ∈ m.fields.names) → m.key ∉ names →
      (∀ name ∈ names, m.isIndexed name = false) →
      Edits app (.removeFields name names) (some m)
        (some { m with fields := m.fields.filter fun entry => entry.1 ∉ names })
  | addIndex {name index : String} {m : Model} {fields : List String} :
      m.indexes.get? index = none → fields ≠ [] → (∀ field ∈ fields, field ∈ m.fields.names) →
      Edits app (.addIndex name index fields) (some m)
        (some { m with indexes := m.indexes.insert index fields })
  | removeIndex {name index : String} {m : Model} :
      index ∈ m.indexes.names →
      Edits app (.removeIndex name index) (some m)
        (some { m with indexes := m.indexes.erase index })

/-- What operations on one model make of it one after the other. -/
inductive EditsAll (app : String) : List Operation → Option Model → Option Model → Prop where
  | nil (r : Option Model) : EditsAll app [] r r
  | cons {operation : Operation} {rest : List Operation} {r r' r'' : Option Model} :
      operation.Edits app r r' → EditsAll app rest r' r'' → EditsAll app (operation :: rest) r r''

variable {app : String} {operation : Operation} {first rest operations : List Operation}
  {r r' r'' : Option Model}

/-- An operation makes one thing of an entry. -/
theorem Edits.unique (h : operation.Edits app r r') (h' : operation.Edits app r r'') :
    r' = r'' := by
  cases h with
  | createModel hparts =>
      cases h' with
      | createModel hparts' => rw [Except.ok.inj (hparts.symm.trans hparts')]
  | _ => cases h'; rfl

theorem editsAll_cons : EditsAll app (operation :: rest) r r'' ↔
    ∃ r', operation.Edits app r r' ∧ EditsAll app rest r' r'' := by
  constructor
  · intro h
    cases h with
    | cons hedit hrest => exact ⟨_, hedit, hrest⟩
  · rintro ⟨r', hedit, hrest⟩
    exact .cons hedit hrest

/-- A list of operations edits an entry part by part. -/
theorem editsAll_append : EditsAll app (first ++ rest) r r'' ↔
    ∃ r', EditsAll app first r r' ∧ EditsAll app rest r' r'' := by
  induction first generalizing r with
  | nil =>
      constructor
      · intro h
        exact ⟨r, .nil r, h⟩
      · rintro ⟨r', hnil, h⟩
        cases hnil
        exact h
  | cons operation first ih =>
      simp only [List.cons_append, editsAll_cons, ih]
      constructor
      · rintro ⟨a, hedit, b, hfirst, hrest⟩
        exact ⟨b, ⟨a, hedit, hfirst⟩, hrest⟩
      · rintro ⟨b, ⟨a, hedit, hfirst⟩, hrest⟩
        exact ⟨a, hedit, b, hfirst, hrest⟩

theorem EditsAll.unique (h : EditsAll app operations r r') (h' : EditsAll app operations r r'') :
    r' = r'' := by
  induction h with
  | nil =>
      cases h'
      rfl
  | cons hedit _ ih =>
      obtain ⟨next, hedit', hrest'⟩ := editsAll_cons.mp h'
      obtain rfl := hedit.unique hedit'
      exact ih hrest'

end Operation

namespace AppSchema

/-- The state with a model, or with none, under a name. -/
def withEntry (s : AppSchema) (name : String) : Option Model → AppSchema
  | some m => s.withModel m
  | none => s.withoutModel name

variable {s : AppSchema} {m : Model} {name other : String} {r r' : Option Model}

@[simp] theorem app_withEntry : (s.withEntry name r).app = s.app := by
  cases r <;> rfl

/-- Only the entry of that name is set. -/
theorem model?_withEntry (hname : ∀ m, r = some m → m.name = name) :
    (s.withEntry name r).model? other = if name = other then r else s.model? other := by
  cases r with
  | some m =>
      rw [withEntry, model?_withModel, hname m rfl]
  | none => exact model?_withoutModel

/-- Setting an entry to what it is changes nothing. -/
theorem Sound.withEntry_self (hs : s.Sound) : s.withEntry name (s.model? name) = s := by
  cases hm : s.model? name with
  | some m => exact hs.withModel_self hm
  | none => exact withoutModel_of_none hm

/-- The last entry set is the one that counts. -/
theorem Sound.withEntry_withEntry (hs : s.Sound) (hname : ∀ m, r = some m → m.name = name)
    (hname' : ∀ m, r' = some m → m.name = name) :
    (s.withEntry name r).withEntry name r' = s.withEntry name r' := by
  have hordered : ∀ (s : AppSchema) r, s.models.Ordered → (s.withEntry name r).models.Ordered := by
    intro s r hs
    cases r with
    | some m => exact hs.insert
    | none => exact hs.erase
  have hmodels : ((s.withEntry name r).withEntry name r').models =
    (s.withEntry name r').models := by
    refine Named.Ordered.ext (hordered _ _ (hordered _ _ hs.ordered)) (hordered _ _ hs.ordered)
      fun other => ?_
    show model? _ other = model? _ other
    rw [model?_withEntry hname', model?_withEntry hname', model?_withEntry hname]
    by_cases h : name = other
    · rw [if_pos h, if_pos h]
    · rw [if_neg h, if_neg h, if_neg h]
  have hrest : ∀ (s : AppSchema) r, s.withEntry name r
      = ⟨s.app, (s.withEntry name r).models, s.migrations⟩ := by
    intro s r
    cases r <;> rfl
  rw [hrest (s.withEntry name r), hmodels, hrest s r']
  cases r <;> rfl

end AppSchema

namespace Operation

variable {s t : AppSchema} {app name : String} {operation : Operation}
  {operations : List Operation} {r r' : Option Model}

/-! ### Operations and their edits -/

/-- An edited entry keeps the name of its model. -/
theorem Edits.name_eq (h : operation.Edits app r r')
    (hname : ∀ m, r = some m → m.name = operation.model) :
    ∀ m, r' = some m → m.name = operation.model := by
  intro m hm
  cases h with
  | createModel hparts =>
      cases hm
      obtain ⟨key, -, rfl⟩ := Model.ofParts_eq_ok hparts
      rfl
  | deleteModel => cases hm
  | _ =>
      obtain rfl := Option.some.inj hm
      have hkept := hname _ rfl
      exact hkept

theorem EditsAll.name_eq (h : EditsAll app operations r r')
    (hmodel : ∀ operation ∈ operations, operation.model = name)
    (hname : ∀ m, r = some m → m.name = name) : ∀ m, r' = some m → m.name = name := by
  induction h with
  | nil => exact hname
  | cons hedit _ ih =>
      obtain ⟨rfl, hmodel⟩ := List.forall_mem_cons.mp hmodel
      exact ih hmodel (hedit.name_eq hname)

/-- An operation that is not refused makes an edit of its model. -/
theorem exists_edits_of_apply (hs : s.Sound) (h : operation.apply s = .ok () t) :
    ∃ r, operation.Edits s.app (s.model? operation.model) r ∧
      t = s.withEntry operation.model r := by
  cases operation with
  | createModel name table fields =>
      obtain ⟨hnone, m, hparts, rfl⟩ := applyCreate_iff.mp h
      refine ⟨some m, ?_, rfl⟩
      rw [model, hnone]
      exact .createModel hparts
  | deleteModel name =>
      obtain ⟨m, hm, rfl⟩ := applyDelete_iff.mp h
      refine ⟨none, ?_, rfl⟩
      rw [model, hm]
      exact .deleteModel
  | addFields name fields =>
      obtain ⟨m, hm, hnodup, hapart, hkeys, rfl⟩ := (applyAddFields_iff hs).mp h
      refine ⟨some _, ?_, rfl⟩
      rw [model, hm]
      exact .addFields hnodup hapart hkeys
  | removeFields name names =>
      obtain ⟨m, hm, hnodup, hnames, hkey, hindexed, rfl⟩ := (applyRemoveFields_iff hs).mp h
      refine ⟨some _, ?_, rfl⟩
      rw [model, hm]
      exact .removeFields hnodup hnames hkey hindexed
  | addIndex name index fields =>
      obtain ⟨m, hm, hnone, hempty, hfields, rfl⟩ := applyAddIndex_iff.mp h
      refine ⟨some _, ?_, rfl⟩
      rw [model, hm]
      exact .addIndex hnone hempty hfields
  | removeIndex name index =>
      obtain ⟨m, hm, hindex, rfl⟩ := applyRemoveIndex_iff.mp h
      refine ⟨some _, ?_, rfl⟩
      rw [model, hm]
      exact .removeIndex hindex

/-- An edit of its model is what the operation makes of the state. -/
theorem Edits.apply_eq (hs : s.Sound)
    (hedit : operation.Edits s.app (s.model? operation.model) r) :
    operation.apply s = .ok () (s.withEntry operation.model r) := by
  generalize hentry : s.model? operation.model = entry at hedit
  cases hedit with
  | createModel hparts => exact applyCreate_iff.mpr ⟨hentry, _, hparts, rfl⟩
  | deleteModel => exact applyDelete_iff.mpr ⟨_, hentry, rfl⟩
  | addFields hnodup hapart hkeys =>
      exact (applyAddFields_iff hs).mpr ⟨_, hentry, hnodup, hapart, hkeys, rfl⟩
  | removeFields hnodup hnames hkey hindexed =>
      exact (applyRemoveFields_iff hs).mpr ⟨_, hentry, hnodup, hnames, hkey, hindexed, rfl⟩
  | addIndex hnone hempty hfields =>
      exact applyAddIndex_iff.mpr ⟨_, hentry, hnone, hempty, hfields, rfl⟩
  | removeIndex hindex => exact applyRemoveIndex_iff.mpr ⟨_, hentry, hindex, rfl⟩

/-- An operation makes of a sound state what its edit makes of its model. Where the model has no
edit, the operation is refused. -/
theorem apply_eq_ok_iff (hs : s.Sound) : operation.apply s = .ok () t ↔
    ∃ r, operation.Edits s.app (s.model? operation.model) r ∧
      t = s.withEntry operation.model r := by
  constructor
  · exact exists_edits_of_apply hs
  · rintro ⟨r, hedit, rfl⟩
    exact hedit.apply_eq hs

/-- Operations on one model make of a sound state what their edits make of the model. -/
theorem forM_apply_iff (hs : s.Sound) (hmodel : ∀ operation ∈ operations, operation.model = name)
    (hfields : ∀ operation ∈ operations, operation.FieldsDiffer) :
    operations.forM apply s = .ok () t ↔
      ∃ r, EditsAll s.app operations (s.model? name) r ∧ t = s.withEntry name r := by
  induction operations generalizing s with
  | nil =>
      rw [forM_nil_eq_ok]
      constructor
      · rintro rfl
        exact ⟨_, .nil _, hs.withEntry_self.symm⟩
      · rintro ⟨r, hnil, rfl⟩
        cases hnil
        exact hs.withEntry_self.symm
  | cons operation rest ih =>
      obtain ⟨rfl, hmodel⟩ := List.forall_mem_cons.mp hmodel
      obtain ⟨hfirst, hfields⟩ := List.forall_mem_cons.mp hfields
      have hname : ∀ m, s.model? operation.model = some m → m.name = operation.model :=
        fun m => hs.name_eq _ m
      -- what the first operation leads to is sound, and has its edit under the name
      have hstep : ∀ r, operation.Edits s.app (s.model? operation.model) r →
          (s.withEntry operation.model r).Sound ∧
            (s.withEntry operation.model r).model? operation.model = r := by
        intro r hedit
        have happly := (apply_eq_ok_iff hs).mpr ⟨r, hedit, rfl⟩
        refine ⟨(applies_of_ok hs happly).sound hs hfirst, ?_⟩
        rw [AppSchema.model?_withEntry (hedit.name_eq hname), if_pos rfl]
      rw [forM_cons_eq_ok]
      constructor
      · rintro ⟨u, happly, h⟩
        obtain ⟨r, hedit, rfl⟩ := (apply_eq_ok_iff hs).mp happly
        obtain ⟨hsound, hentry⟩ := hstep r hedit
        obtain ⟨r', hedits, rfl⟩ := (ih hsound hmodel hfields).mp h
        rw [hentry, AppSchema.app_withEntry] at hedits
        exact ⟨r', .cons hedit hedits, hs.withEntry_withEntry (hedit.name_eq hname)
          (hedits.name_eq hmodel (hedit.name_eq hname))⟩
      · rintro ⟨r', hedits, rfl⟩
        obtain ⟨r, hedit, hrest⟩ := editsAll_cons.mp hedits
        obtain ⟨hsound, hentry⟩ := hstep r hedit
        refine ⟨_, (apply_eq_ok_iff hs).mpr ⟨r, hedit, rfl⟩, (ih hsound hmodel hfields).mpr
          ⟨r', ?_, (hs.withEntry_withEntry (hedit.name_eq hname)
            (hrest.name_eq hmodel (hedit.name_eq hname))).symm⟩⟩
        rw [hentry, AppSchema.app_withEntry]
        exact hrest

end Operation

/-! ### One model in a replay -/

namespace AppSchema

variable {s t u : AppSchema} {app name : String} {migrations : List Migration}
  {steps : Migration.Steps}

/-- Of all the operations along a path, those on one model make its last entry of its first. -/
theorem Path.editsAll (h : Path s steps u) (hs : s.Sound)
    (hfields : ∀ operation ∈ steps.map (·.1), operation.FieldsDiffer) :
    Operation.EditsAll s.app ((steps.map (·.1)).filter (·.model = name)) (s.model? name)
      (u.model? name) := by
  induction h with
  | nil s => exact .nil _
  | @cons operation rest s t u happly _ ih =>
      obtain ⟨hfirst, hfields⟩ := List.forall_mem_cons.mp hfields
      have hrest := ih ((Operation.applies_of_ok hs happly).sound hs hfirst) hfields
      rw [app_eq_of_apply happly] at hrest
      obtain ⟨r, hedit, rfl⟩ := (Operation.apply_eq_ok_iff hs).mp happly
      rw [model?_withEntry (hedit.name_eq fun m => hs.name_eq _ m)] at hrest
      rw [List.map_cons]
      by_cases hname : operation.model = name
      · rw [List.filter_cons_of_pos (by simpa using hname)]
        rw [if_pos hname] at hrest
        exact .cons (hname ▸ hedit) hrest
      · rw [List.filter_cons_of_neg (by simpa using hname)]
        rwa [if_neg hname] at hrest

/-- A replay makes of a model what the operations on it make of it. -/
theorem editsAll_of_replay (name : String)
    (hfields : ∀ migration ∈ migrations, migration.FieldsDiffer)
    (h : replay app migrations = .ok s) :
    Operation.EditsAll app ((migrations.flatMap (·.operations)).filter (·.model = name)) none
      (s.model? name) := by
  have hfrom : ∀ (migrations : List Migration) (s t : AppSchema),
      (∀ migration ∈ migrations, migration.FieldsDiffer) → s.Sound →
      migrations.foldlM next s = .ok t →
      Operation.EditsAll s.app ((migrations.flatMap (·.operations)).filter (·.model = name))
        (s.model? name) (t.model? name) := by
    intro migrations
    induction migrations with
    | nil =>
        intro s t _ _ h
        cases h
        exact .nil _
    | cons migration rest ih =>
        intro s t hfields hs h
        rw [List.foldlM_cons] at h
        obtain ⟨v, hnext, h⟩ := Except.bind_eq_ok.mp h
        obtain ⟨hmigration, hrest⟩ := List.forall_mem_cons.mp hfields
        have hlater := ih v t hrest (next_sound hs hmigration hnext) h
        rw [app_eq_of_next hnext] at hlater
        obtain ⟨-, steps, w, hpath, hmap, rfl⟩ := next_eq_ok.mp hnext
        have hfirst : Operation.EditsAll s.app (migration.operations.filter (·.model = name))
            (s.model? name) (w.model? name) :=
          hmap ▸ hpath.editsAll hs (hmap ▸ hmigration)
        rw [List.flatMap_cons, List.filter_append]
        exact Operation.editsAll_append.mpr ⟨_, hfirst, hlater⟩
  exact hfrom migrations _ s hfields sound_init h

end AppSchema

end SchemaHistory
