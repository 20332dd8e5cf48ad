import SchemaHistory.Diff
import SchemaHistory.Proofs.Edits

/-!
# Declared models

A model is `Model.Keyed` where its key is its only primary key and no index is over nothing.
Operations keep this, so it holds of the models of every state that migrations lead to
(`replay_keyed`), and it holds of the models that are built from declarations (`build_eq_ok`).

The difference between a state and the declarations needs it on both sides: of the recorded model,
since its key can be neither removed nor added, and of the declared one, since the indexes it asks
for have to be created over fields that are there. `Edits.keyed` is the step, for one entry of the
state, and `Edits.changes` makes a change of the model of it.
-/

namespace SchemaHistory

namespace Model

/-- The model belongs to the app, its key is its only primary key, and every index is over some
field. -/
structure Keyed (app : String) (m : Model) : Prop where
  app_eq : m.app = app
  keys : keysOf m.fields = [m.key]
  covering : ∀ index covered, m.indexes.get? index = some covered → covered ≠ []

variable {app name : String} {m m' : Model} {field : Field} {fields : Fields}

theorem keysOf_append {more : Fields} : keysOf (fields ++ more) = keysOf fields ++ keysOf more := by
  simp only [keysOf, List.filter_append, Named.names_append]

/-- There is no key where no field is one. -/
theorem keysOf_eq_nil_iff :
    keysOf fields = [] ↔ ∀ entry ∈ fields, entry.2.isPrimaryKey = false := by
  simp [keysOf, Named.names]

theorem mem_keysOf : name ∈ keysOf fields ↔ ∃ field, (name, field) ∈ fields ∧
    field.isPrimaryKey := by
  simp [keysOf, Named.names]

/-- Taking out fields that are no keys leaves the keys. -/
theorem keysOf_filter {keep : String → Bool} (h : ∀ name ∈ keysOf fields, keep name) :
    keysOf (fields.filter fun entry => keep entry.1) = keysOf fields := by
  simp only [keysOf]
  rw [List.filter_comm, List.filter_eq_self.mpr]
  intro entry hentry
  exact h entry.1 (List.mem_map_of_mem hentry)

theorem Keyed.key_mem (h : m.Keyed app) : m.key ∈ m.fields.names := by
  have hkey : m.key ∈ keysOf m.fields := by rw [h.keys]; exact List.mem_singleton_self _
  obtain ⟨field, hfield, -⟩ := mem_keysOf.mp hkey
  exact List.mem_map_of_mem hfield

/-- The field with the name of the key is the only one. -/
theorem Keyed.isPrimaryKey_iff (h : m.Keyed app) (hfields : m.fields.names.Nodup)
    (hfield : (name, field) ∈ m.fields) : field.isPrimaryKey = true ↔ name = m.key := by
  have hkeys : name ∈ keysOf m.fields ↔ name = m.key := by rw [h.keys, List.mem_singleton]
  rw [← hkeys, mem_keysOf]
  constructor
  · intro hkey
    exact ⟨field, hfield, hkey⟩
  · rintro ⟨other, hother, hkey⟩
    have hsame := (Named.get?_of_mem hfields hfield).symm.trans (Named.get?_of_mem hfields hother)
    rw [Option.some.inj hsame]
    exact hkey

end Model

namespace Operation

variable {app : String} {operation : Operation} {operations : List Operation} {r r' : Option Model}

/-- An operation does not touch the key. -/
theorem Edits.keyed (h : operation.Edits app r r') (hr : ∀ m, r = some m → m.Keyed app) :
    ∀ m, r' = some m → m.Keyed app := by
  intro now hnow
  cases h with
  | createModel hparts =>
      cases hnow
      obtain ⟨key, hkeys, rfl⟩ := Model.ofParts_eq_ok hparts
      exact ⟨rfl, hkeys, by simp⟩
  | deleteModel => cases hnow
  | @addFields _ m fields _ _ hkeys =>
      obtain rfl := Option.some.inj hnow
      have hm := hr m rfl
      refine ⟨hm.app_eq, ?_, hm.covering⟩
      rw [Model.keysOf_append, hm.keys, Model.keysOf_eq_nil_iff.mpr hkeys, List.append_nil]
  | @removeFields _ m names _ _ hkey _ =>
      obtain rfl := Option.some.inj hnow
      have hm := hr m rfl
      refine ⟨hm.app_eq, ?_, hm.covering⟩
      have hkeep : ∀ name ∈ Model.keysOf m.fields, decide (name ∉ names) = true := by
        rw [hm.keys]
        simpa using hkey
      exact (Model.keysOf_filter hkeep).trans hm.keys
  | @addIndex _ index m fields _ hempty _ =>
      obtain rfl := Option.some.inj hnow
      have hm := hr m rfl
      refine ⟨hm.app_eq, hm.keys, fun other covered hget => ?_⟩
      rw [Named.get?_insert] at hget
      split at hget
      · obtain rfl := Option.some.inj hget
        exact hempty
      · exact hm.covering other covered hget
  | @removeIndex _ index m _ =>
      obtain rfl := Option.some.inj hnow
      have hm := hr m rfl
      refine ⟨hm.app_eq, hm.keys, fun other covered hget => ?_⟩
      rw [Named.get?_erase] at hget
      split at hget
      · cases hget
      · exact hm.covering other covered hget

/-- An edit of one model is a change of it. -/
theorem Edits.changes {m m' : Model} (h : operation.Edits app (some m) (some m'))
    (hname : m.name = operation.model) : m.Changes operation m' := by
  cases h with
  | addFields hnodup hapart _ => exact hname ▸ .addFields hnodup hapart
  | removeFields hnodup hnames _ hindexed => exact hname ▸ .removeFields hnodup hnames hindexed
  | addIndex hnone _ hfields => exact hname ▸ .addIndex hnone hfields
  | removeIndex hindex => exact hname ▸ .removeIndex hindex

end Operation

/-! ### The models of a state -/

namespace AppSchema

/-- The models of the state are keyed models of its app. -/
def Keyed (s : AppSchema) : Prop := ∀ name m, s.model? name = some m → m.Keyed s.app

variable {s t u : AppSchema} {app : String} {operation : Operation} {migration : Migration}
  {migrations : List Migration} {steps : Migration.Steps}

/-- An operation that is accepted leaves every model with its key. -/
theorem Keyed.apply (hk : s.Keyed) (hs : s.Sound) (h : operation.apply s = .ok () t) : t.Keyed := by
  obtain ⟨r, hedit, rfl⟩ := (Operation.apply_eq_ok_iff hs).mp h
  intro name m hm
  rw [model?_withEntry (hedit.name_eq fun m => hs.name_eq _ m)] at hm
  rw [app_withEntry]
  split at hm
  · exact hedit.keyed (fun m => hk _ m) m hm
  · exact hk name m hm

theorem Path.keyed (h : Path s steps u) (hs : s.Sound) (hk : s.Keyed)
    (hfields : ∀ operation ∈ steps.map (·.1), operation.FieldsDiffer) : u.Keyed := by
  induction h with
  | nil => exact hk
  | cons happly _ ih =>
      obtain ⟨hoperation, hrest⟩ := List.forall_mem_cons.mp hfields
      exact ih ((Operation.applies_of_ok hs happly).sound hs hoperation) (hk.apply hs happly) hrest

/-- Every state that migrations lead to has keyed models. -/
theorem replay_keyed (hfields : ∀ migration ∈ migrations, migration.FieldsDiffer)
    (h : replay app migrations = .ok s) : s.Keyed := by
  have hfrom : ∀ (migrations : List Migration) (s t : AppSchema),
      (∀ migration ∈ migrations, migration.FieldsDiffer) → s.Sound → s.Keyed →
      migrations.foldlM next s = .ok t → t.Keyed := by
    intro migrations
    induction migrations with
    | nil =>
        intro s t _ _ hk h
        cases h
        exact hk
    | cons migration rest ih =>
        intro s t hfields hs hk h
        rw [List.foldlM_cons] at h
        obtain ⟨u, hnext, h⟩ := Except.bind_eq_ok.mp h
        obtain ⟨hmigration, hrest⟩ := List.forall_mem_cons.mp hfields
        refine ih u t hrest (next_sound hs hmigration hnext) ?_ h
        obtain ⟨-, steps, v, hpath, hmap, rfl⟩ := next_eq_ok.mp hnext
        exact hpath.keyed hs hk (hmap ▸ hmigration)
  exact hfrom migrations _ s hfields sound_init nofun h

end AppSchema

/-! ### Models that are built -/

namespace Model

variable {app name : String} {m m' : Model} {indexes : Indexes}

/-- The model is built for the app, from a declaration that gives every field a name of its own. -/
def DeclaredIn (app : String) (m : Model) : Prop :=
  ∃ declaration : Declaration, declaration.fields.names.Nodup ∧ declaration.build app = .ok m

/-- Indexes that are added one by one to a sound and keyed model leave it so. -/
theorem sound_keyed_of_indexes (hm : m.Sound) (hk : m.Keyed app)
    (h : indexes.foldlM (fun m (index, fields) => m.withIndex index fields) m = .ok m') :
    m'.Sound ∧ m'.Keyed app ∧ m'.name = m.name := by
  induction indexes generalizing m with
  | nil =>
      cases h
      exact ⟨hm, hk, rfl⟩
  | cons entry rest ih =>
      rw [List.foldlM_cons] at h
      obtain ⟨m₁, hindex, h⟩ := Except.bind_eq_ok.mp h
      obtain ⟨⟨⟩, hadd⟩ := Revision.map_outcome_eq_ok.mp hindex
      obtain ⟨hnone, hempty, hfields, rfl⟩ := addIndex_iff.mp hadd
      have hedit : (Operation.addIndex m.name entry.1 entry.2).Edits app (some m) (some _) :=
        .addIndex hnone hempty hfields
      obtain ⟨hsound, hkeyed, hname⟩ := ih ((hedit.changes rfl).sound hm)
        (hedit.keyed (fun _ h => Option.some.inj h ▸ hk) _ rfl) h
      exact ⟨hsound, hkeyed, hname⟩

/-- The fields that go without saying do not clash with the declared ones. -/
theorem nodup_keyedFields {declaration : Declaration} {fields : Fields}
    (hnames : declaration.fields.names.Nodup) (h : declaration.keyedFields = .ok fields) :
    fields.names.Nodup := by
  unfold Declaration.keyedFields at h
  split at h
  · cases h
  · cases h
    exact hnames
  · split at h
    · cases h
    · next hid =>
        cases h
        rw [Bool.not_eq_true, Named.has_eq_false_iff, Named.get?_eq_none_iff] at hid
        exact List.nodup_cons.mpr ⟨hid, hnames⟩

/-- What is made of parts is named as asked for, and a sound and keyed model. -/
theorem sound_keyed_of_ofParts {table : String} {fields : Fields} (hnames : fields.names.Nodup)
    (h : ofParts app name table fields indexes = .ok m) :
    m.Sound ∧ m.Keyed app ∧ m.name = name := by
  unfold ofParts at h
  split at h
  · next key hkeys =>
      have hsound : Sound ⟨app, name, table, key, fields, []⟩ :=
        ⟨hnames, Named.ordered_nil, by simp⟩
      exact sound_keyed_of_indexes hsound ⟨rfl, hkeys, by simp⟩ h
  · cases h
  · cases h

/-- What is built from a declaration is named as it, and a sound and keyed model. -/
theorem build_eq_ok {declaration : Declaration} (hnames : declaration.fields.names.Nodup)
    (h : declaration.build app = .ok m) : m.Sound ∧ m.Keyed app ∧ m.name = declaration.name := by
  obtain ⟨fields, hfields, h⟩ := Except.bind_eq_ok.mp h
  obtain ⟨indexes, -, h⟩ := Except.bind_eq_ok.mp h
  exact sound_keyed_of_ofParts (nodup_keyedFields hnames hfields) h

/-- A declared model is sound and has its key. -/
theorem DeclaredIn.sound_keyed (h : m.DeclaredIn app) : m.Sound ∧ m.Keyed app := by
  obtain ⟨declaration, hnames, h⟩ := h
  obtain ⟨hm, hk, -⟩ := build_eq_ok hnames h
  exact ⟨hm, hk⟩

/-- The models that are declared for an app have the keys that its states expect. -/
theorem sound_keyed_of_declaredIn {s : AppSchema} {migrations : List Migration}
    {declared : List Model} (hreplay : AppSchema.replay app migrations = .ok s)
    (hdeclared : ∀ m ∈ declared, m.DeclaredIn app) :
    ∀ m ∈ declared, m.Sound ∧ m.Keyed s.app := by
  intro m hm
  rw [AppSchema.app_eq_of_replay hreplay]
  exact (hdeclared m hm).sound_keyed

end Model

end SchemaHistory
