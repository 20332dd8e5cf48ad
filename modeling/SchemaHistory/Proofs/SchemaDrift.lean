import SchemaHistory.Proofs.ReachDeclared

/-!
# What is noticed of a change

A model may be declared differently from what the migrations of its app have made of it. What the
operations that lead to the declared model leave as it is, the report of altered fields has to tell.
Together they notice any other key, any other field or definition of a field, and any other index
(`AppSchema.drift_noticed`). The name of the table is not looked at
(`AppSchema.moved_note_unnoticed`).
-/

namespace SchemaHistory

namespace Field

variable {a b : Field}

theorem isPrimaryKey_of_same (h : a.same b = true) : a.isPrimaryKey = b.isPrimaryKey := by
  rw [same, Bool.and_eq_true, beq_iff_eq] at h
  have hkey := congrArg isPrimaryKey h.1
  exact hkey

end Field

namespace Model

variable {app : String} {prior declared : Model}

/-- Two models have the same key, the same fields in whatever order, and the same indexes. Nothing
is said of their tables. -/
structure Agrees (prior declared : Model) : Prop where
  key : prior.key = declared.key
  names : ∀ name, name ∈ prior.fields.names ↔ name ∈ declared.fields.names
  fields : ∀ name recorded field, prior.field? name = some recorded →
    declared.field? name = some field → recorded.same field = true
  indexes : prior.indexes = declared.indexes

/-! ### Changes that are made -/

theorem names_subset_of_fieldsNotIn (h : prior.fieldsNotIn declared = []) {name : String}
    (hname : name ∈ prior.fields.names) : name ∈ declared.fields.names := by
  by_contra hnot
  have hnew := mem_names_fieldsNotIn.mpr ⟨hname, hnot⟩
  rw [h] at hnew
  exact List.not_mem_nil hnew

/-- With nothing dropped and nothing created the indexes are the same. -/
theorem Sound.indexes_eq (hprior : prior.Sound) (hdeclared : declared.Sound)
    (hdropped : prior.indexesNotIn declared = []) (hcreated : declared.indexesNotIn prior = []) :
    prior.indexes = declared.indexes := by
  refine Named.Ordered.ext hprior.indexes hdeclared.indexes fun index => ?_
  by_contra hne
  by_cases hindex : index ∈ prior.indexes.names
  · have hold := hprior.mem_names_indexesNotIn.mpr ⟨hindex, hne⟩
    rw [hdropped] at hold
    exact List.not_mem_nil hold
  · rw [Named.get?_eq_none_iff.mpr hindex] at hne
    obtain ⟨covered, hcovered⟩ := Option.ne_none_iff_exists'.mp (Ne.symm hne)
    have hdiffers : declared.indexes.get? index ≠ prior.indexes.get? index := by
      rw [hcovered, Named.get?_eq_none_iff.mpr hindex]
      exact Option.some_ne_none covered
    have hnew := hdeclared.mem_names_indexesNotIn.mpr
      ⟨Named.mem_names_iff.mpr ⟨covered, hcovered⟩, hdiffers⟩
    rw [hcreated] at hnew
    exact List.not_mem_nil hnew

/-- There is nothing to change exactly if the names of the fields and the indexes are the same. -/
theorem Sound.changes_eq_nil_iff (hprior : prior.Sound) (hdeclared : declared.Sound) :
    prior.changes declared = [] ↔
      (∀ name, name ∈ prior.fields.names ↔ name ∈ declared.fields.names) ∧
        prior.indexes = declared.indexes := by
  constructor
  · intro h
    rw [changes_eq] at h
    simp only [List.append_eq_nil_iff, List.map_eq_nil_iff] at h
    obtain ⟨⟨⟨hdropped, hremoved⟩, hadded⟩, hcreated⟩ := h
    have hdropped : prior.indexesNotIn declared = [] := List.map_eq_nil_iff.mp hdropped
    have hremoved : prior.fieldsNotIn declared = [] := by
      cases hfields : prior.fieldsNotIn declared with
      | nil => rfl
      | cons entry rest => rw [hfields] at hremoved; cases hremoved
    have hadded : declared.fieldsNotIn prior = [] := by
      cases hfields : declared.fieldsNotIn prior with
      | nil => rfl
      | cons entry rest => rw [hfields] at hadded; cases hadded
    exact ⟨fun name => ⟨names_subset_of_fieldsNotIn hremoved, names_subset_of_fieldsNotIn hadded⟩,
      hprior.indexes_eq hdeclared hdropped hcreated⟩
  · rintro ⟨hnames, hindexes⟩
    exact changes_eq_nil hdeclared hprior hnames hindexes

/-! ### Changes that are reported -/

/-- Nothing is reported exactly if the fields that both models have are defined alike. -/
theorem alteredIn_eq_nil_iff (hdeclared : declared.Sound) :
    AppSchema.alteredIn prior declared = [] ↔
      ∀ name recorded field, prior.field? name = some recorded →
        declared.field? name = some field → recorded.same field = true := by
  unfold AppSchema.alteredIn
  rw [List.filterMap_eq_nil_iff]
  constructor
  · intro h name recorded field hrecorded hfield
    have hnone := h (name, field) (Named.mem_of_get? hfield)
    by_contra hdiffers
    simp only [hrecorded, if_neg hdiffers] at hnone
    cases hnone
  · rintro h ⟨name, field⟩ hentry
    cases hrecorded : prior.field? name with
    | none => simp only [hrecorded]
    | some recorded =>
        have hsame := h name recorded field hrecorded (Named.get?_of_mem hdeclared.fields hentry)
        simp only [hrecorded, if_pos hsame]

/-- Fields that are defined alike make the same key. -/
theorem Keyed.key_eq (hprior : prior.Sound) (hpkeyed : prior.Keyed app) (hdeclared : declared.Sound)
    (hdkeyed : declared.Keyed app)
    (hnames : ∀ name, name ∈ prior.fields.names ↔ name ∈ declared.fields.names)
    (hfields : ∀ name recorded field, prior.field? name = some recorded →
      declared.field? name = some field → recorded.same field = true) :
    prior.key = declared.key := by
  -- the recorded field that has the name of the declared key is a key as well, and there is only
  -- one
  obtain ⟨field, hfield⟩ := Named.mem_names_iff.mp hdkeyed.key_mem
  obtain ⟨recorded, hrecorded⟩ := Named.mem_names_iff.mp ((hnames _).mpr hdkeyed.key_mem)
  have hsame := Field.isPrimaryKey_of_same (hfields _ _ _ hrecorded hfield)
  have hkey := (hdkeyed.isPrimaryKey_iff hdeclared.fields (Named.mem_of_get? hfield)).mpr rfl
  rw [← hsame] at hkey
  exact ((hpkeyed.isPrimaryKey_iff hprior.fields (Named.mem_of_get? hrecorded)).mp hkey).symm

/-- There is nothing to change and nothing to report exactly if the models agree. -/
theorem agrees_iff (hprior : prior.Sound) (hpkeyed : prior.Keyed app) (hdeclared : declared.Sound)
    (hdkeyed : declared.Keyed app) :
    prior.changes declared = [] ∧ AppSchema.alteredIn prior declared = [] ↔
      prior.Agrees declared := by
  rw [hprior.changes_eq_nil_iff hdeclared, alteredIn_eq_nil_iff hdeclared]
  constructor
  · rintro ⟨⟨hnames, hindexes⟩, hfields⟩
    exact ⟨hpkeyed.key_eq hprior hdeclared hdkeyed hnames hfields, hnames, hfields, hindexes⟩
  · intro h
    exact ⟨⟨h.names, h.indexes⟩, h.fields⟩

end Model

namespace AppSchema

open Operation

/-- Let a model be declared for an app, and be recorded in a state that the migrations of the app
lead to. There is no operation that leads to the declared model, and none of its fields is reported,
exactly if it agrees with the recorded one. -/
theorem drift_noticed {app : String} {migrations : List Migration} {state : AppSchema}
    {declared prior : Model} (hfields : ∀ migration ∈ migrations, migration.FieldsDiffer)
    (hreplay : replay app migrations = .ok state) (hdeclared : declared.DeclaredIn app)
    (hprior : state.model? declared.name = some prior) :
    state.changesFor declared = [] ∧ state.altered [declared] = [] ↔ prior.Agrees declared := by
  have hs := replay_sound hfields hreplay
  have hk := replay_keyed hfields hreplay
  obtain ⟨hdsound, hdkeyed⟩ := hdeclared.sound_keyed
  rw [← app_eq_of_replay hreplay] at hdkeyed
  have hchanges : state.changesFor declared = prior.changes declared := by
    rw [changesFor, hprior]
  have haltered : state.altered [declared] = alteredIn prior declared := by
    rw [altered, List.flatMap_singleton, hprior]
  rw [hchanges, haltered]
  exact Model.agrees_iff (hs.model _ _ hprior) (hk _ _ hprior) hdsound hdkeyed

def movedNote : Model := { noteModel with table := "memo" }

theorem movedNote_declared : movedNote.DeclaredIn "notes" :=
  ⟨⟨"Note", some "memo", movedNote.fields, []⟩, by decide, rfl⟩

theorem noteMigration_fieldsDiffer :
    ∀ migration ∈ [noteMigration], migration.FieldsDiffer := by
  simp [noteMigration, Migration.FieldsDiffer, FieldsDiffer, noteModel, Named.names]

theorem moved_note_agrees : noteModel.Agrees movedNote :=
  (drift_noticed noteMigration_fieldsDiffer rfl movedNote_declared rfl).mp ⟨rfl, rfl⟩

/-- A model that is declared for another table is left in the one that it has, and nothing is
reported. -/
theorem moved_note_unnoticed : replay "notes" [noteMigration] = .ok noteState ∧
    movedNote.DeclaredIn "notes" ∧ noteState.model? movedNote.name = some noteModel ∧
    noteState.changesFor movedNote = [] ∧ noteState.altered [movedNote] = [] ∧
    noteModel.table ≠ movedNote.table :=
  ⟨rfl, movedNote_declared, rfl, rfl, rfl, by decide⟩

end AppSchema

end SchemaHistory
