import SchemaHistory.Proofs.OperationParts
import SchemaHistory.Proofs.RoundTrip

/-!
# States and models that can be reached

A state is `AppSchema.Reachable` if operations lead to it from the empty state of an app, each of
them accepted or refused. An operation that is refused may leave some of its fields added or
removed, namely those before the field at which it is refused. Still, what is left is a state like
any other (`AppSchema.Reachable.sound_keyed`): its models go by their names, each has one key, and
their indexes are over fields that they have. The same holds of a model that is edited on its own
(`Model.Made.sound_keyed`).
-/

namespace SchemaHistory

namespace AppSchema

open Operation

variable {app name : String} {s t : AppSchema} {e : MigrationError} {operation : Operation}
  {operations : List Operation} {m : Model}

/-! ### Operations that may be refused -/

/-- The state after an operation that may be refused. -/
def tried (s : AppSchema) (operation : Operation) : AppSchema :=
  match operation.apply s with
  | .ok _ t | .error _ t => t

theorem tried_of_ok (h : operation.apply s = .ok () t) : s.tried operation = t := by
  rw [tried, h]

/-- An operation that is refused leaves what it has written so far. -/
theorem tried_of_error (h : operation.apply s = .error e t) : s.tried operation = t := by
  rw [tried, h]

/-- Whether an operation is refused or not, some of its first parts are carried out. -/
theorem exists_parts_tried (hs : s.Sound) (operation : Operation) :
    ∃ done, done <+: operation.parts ∧ done.forM apply s = .ok () (s.tried operation) := by
  cases h : operation.apply s with
  | ok a t =>
      refine ⟨operation.parts, List.prefix_refl _, ?_⟩
      rw [← apply_eq_forM_parts, h, tried_of_ok h]
  | error e t =>
      obtain ⟨done, refused, rest, hparts, hdone, -⟩ := exists_refused_part hs h
      exact ⟨done, ⟨refused :: rest, hparts.symm⟩, by rw [hdone, tried_of_error h]⟩

/-- What some operations that are accepted make of a sound state with keyed models is one again. -/
theorem sound_keyed_of_forM (hs : s.Sound) (hk : s.Keyed)
    (hfields : ∀ operation ∈ operations, operation.FieldsDiffer)
    (h : operations.forM apply s = .ok () t) : t.Sound ∧ t.Keyed := by
  induction operations generalizing s with
  | nil =>
      obtain rfl := forM_nil_eq_ok.mp h
      exact ⟨hs, hk⟩
  | cons operation rest ih =>
      obtain ⟨hoperation, hrest⟩ := List.forall_mem_cons.mp hfields
      obtain ⟨u, happly, h⟩ := forM_cons_eq_ok.mp h
      exact ih ((applies_of_ok hs happly).sound hs hoperation) (hk.apply hs happly) hrest h

/-- Accepted or refused, an operation keeps a state sound. -/
theorem sound_keyed_tried (hs : s.Sound) (hk : s.Keyed) (hfields : operation.FieldsDiffer) :
    (s.tried operation).Sound ∧ (s.tried operation).Keyed := by
  obtain ⟨done, hfirst, hdone⟩ := exists_parts_tried hs operation
  refine sound_keyed_of_forM hs hk (fun part hpart => ?_) hdone
  exact fieldsDiffer_of_mem_parts (hfirst.subset hpart) hfields

/-- An operation that is accepted or refused changes no more than the entry of its model. -/
theorem exists_tried_eq (hs : s.Sound) (hfields : operation.FieldsDiffer) :
    ∃ r, (∀ m, r = some m → m.name = operation.model) ∧
      s.tried operation = s.withEntry operation.model r := by
  obtain ⟨done, hfirst, hdone⟩ := exists_parts_tried hs operation
  have hmodel : ∀ part ∈ done, part.model = operation.model := fun part hpart =>
    model_of_mem_parts (hfirst.subset hpart)
  have hparts : ∀ part ∈ done, part.FieldsDiffer := fun part hpart =>
    fieldsDiffer_of_mem_parts (hfirst.subset hpart) hfields
  obtain ⟨r, hedits, htried⟩ := (forM_apply_iff hs hmodel hparts).mp hdone
  exact ⟨r, hedits.name_eq hmodel fun m => hs.name_eq _ m, htried⟩

theorem model?_tried (hs : s.Sound) (hfields : operation.FieldsDiffer)
    (hname : name ≠ operation.model) : (s.tried operation).model? name = s.model? name := by
  obtain ⟨r, hr, htried⟩ := exists_tried_eq hs hfields
  rw [htried, model?_withEntry hr, if_neg hname.symm]

theorem migrations_tried (hs : s.Sound) (hfields : operation.FieldsDiffer) :
    (s.tried operation).migrations = s.migrations := by
  obtain ⟨r, -, htried⟩ := exists_tried_eq hs hfields
  rw [htried]
  cases r <;> rfl

theorem app_tried (hs : s.Sound) (hfields : operation.FieldsDiffer) :
    (s.tried operation).app = s.app := by
  obtain ⟨r, -, htried⟩ := exists_tried_eq hs hfields
  rw [htried, app_withEntry]

/-! ### Reachable states -/

/-- The states that operations lead to from the empty state of an app, whether they are accepted or
refused. The fields that an operation brings come from a map, so their names differ. Between
operations the name of a migration may be recorded. -/
inductive Reachable (app : String) : AppSchema → Prop where
  | start : Reachable app { app }
  | tried {s : AppSchema} (operation : Operation) :
      Reachable app s → operation.FieldsDiffer → Reachable app (s.tried operation)
  | recorded {s : AppSchema} (migration : Migration) :
      Reachable app s → Reachable app (s.recorded migration)

/-- Every state that can be reached is sound and has its keys, by induction on how it is reached. -/
theorem Reachable.sound_keyed (h : s.Reachable app) : s.app = app ∧ s.Sound ∧ s.Keyed := by
  induction h with
  | start => exact ⟨rfl, sound_init, nofun⟩
  | tried operation _ hfields ih =>
      obtain ⟨happ, hs, hk⟩ := ih
      exact ⟨(app_tried hs hfields).trans happ, sound_keyed_tried hs hk hfields⟩
  | recorded migration _ ih =>
      obtain ⟨happ, hs, hk⟩ := ih
      exact ⟨happ, hs.recorded, hk⟩

theorem Reachable.sound (h : s.Reachable app) : s.Sound := h.sound_keyed.2.1

/-- Let an operation be refused in a reachable state. Then one of its parts is refused, and what is
left is what the parts before it have made of the state. This is the state as it was exactly if
there are no parts before it. -/
theorem refused_at_a_part (hs : s.Reachable app) (h : operation.apply s = .error e t) :
    ∃ done refused rest, operation.parts = done ++ refused :: rest ∧
      done.forM apply s = .ok () t ∧ refused.apply t = .error e t ∧ (t = s ↔ done = []) := by
  obtain ⟨done, refused, rest, hparts, hdone, hrefused⟩ := exists_refused_part hs.sound h
  refine ⟨done, refused, rest, hparts, hdone, hrefused, ?_, ?_⟩
  · intro hsame
    by_contra hne
    exact ne_of_forM_parts hs.sound hparts hne hdone hsame
  · rintro rfl
    exact (forM_nil_eq_ok.mp hdone).symm

/-- Notes with a label, and with the text that they have already. -/
def labelAndText : Operation :=
  .addFields "Note" [("label", { Field.ofKind .text with null := true }), ("text", .ofKind .text)]

theorem reachable_noteState : noteState.Reachable "notes" :=
  .recorded noteMigration
    (.tried (.createModel "Note" (some "note") noteModel.fields) .start (by decide))

/-- The text cannot be added once more. -/
theorem text_added_twice : ∃ t, noteState.Reachable "notes" ∧
    labelAndText.apply noteState =
      .error (.inconsistent "notes" (.duplicateField "Note" "text")) t ∧
    ∃ done refused rest, labelAndText.parts = done ++ refused :: rest ∧
      done.forM apply noteState = .ok () t ∧
      refused.apply t = .error (.inconsistent "notes" (.duplicateField "Note" "text")) t ∧
      (t = noteState ↔ done = []) :=
  ⟨_, reachable_noteState, rfl, refused_at_a_part reachable_noteState rfl⟩

/-- The label stays added where the text is refused, and the text removed where there is no size. -/
theorem refused_but_changed : noteState.Reachable "notes" ∧
    (∃ e t, labelAndText.apply noteState = .error e t ∧ t ≠ noteState) ∧
    ∃ e t, (removeFields "Note" ["text", "size"]).apply noteState = .error e t ∧ t ≠ noteState :=
  ⟨reachable_noteState, ⟨_, _, rfl, by decide⟩, _, _, rfl, by decide⟩

end AppSchema

/-! ### Models on their own -/

namespace Model

/-- A change of a model on its own. -/
inductive Edit where
  | addField (name : String) (field : Field)
  | removeField (name : String)
  | addIndex (name : String) (fields : List String)
  | removeIndex (name : String)

def Edit.revision : Edit → Revision Unit
  | .addField name field => Model.addField name field
  | .removeField name => do
    let _ ← Model.removeField name
  | .addIndex name fields => Model.addIndex name fields
  | .removeIndex name => do
    let _ ← Model.removeIndex name

/-- What an edit makes of a model, if it is not refused. -/
def edit (m : Model) : Edit → Except SchemaError Model
  | .addField name field => m.withField name field
  | .removeField name => (m.withoutField name).map (·.2)
  | .addIndex name fields => m.withIndex name fields
  | .removeIndex name => (m.withoutIndex name).map (·.2)

/-- What an edit leaves of a model, whether it is refused or not. -/
def edited (m : Model) (edit : Edit) : Model :=
  match edit.revision m with
  | .ok _ m' | .error _ m' => m'

/-- The models of an app that can be made with a name: built from a declaration or made of parts,
and edited, where each edit is accepted or refused. -/
inductive Made (app name : String) : Model → Prop where
  | declared {declaration : Declaration} {m : Model} : declaration.fields.names.Nodup →
      declaration.name = name → declaration.build app = .ok m → Made app name m
  | ofParts {table : String} {fields : Fields} {indexes : Indexes} {m : Model} :
      fields.names.Nodup → Model.ofParts app name table fields indexes = .ok m → Made app name m
  | edited {m : Model} (edit : Edit) : Made app name m → Made app name (m.edited edit)

variable {app name : String} {m m' : Model} {edit : Edit} {r : Option Model} {s : AppSchema}

/-- The same change as an operation on the model with a name. -/
def Edit.operation (model : String) : Edit → Operation
  | .addField name field => .addFields model [(name, field)]
  | .removeField name => .removeFields model [name]
  | .addIndex name fields => .addIndex model name fields
  | .removeIndex name => .removeIndex model name

theorem Edit.model_operation : (edit.operation name).model = name := by
  cases edit <;> rfl

theorem Edit.mem_parts_operation : edit.operation name ∈ (edit.operation name).parts := by
  cases edit <;> exact List.mem_singleton_self _

theorem edit_eq_ok : m.edit edit = .ok m' ↔ edit.revision m = .ok () m' := by
  have hdrop : ∀ {α : Type} {revision : Revision α}, (∃ a, revision m = .ok a m') ↔
      (revision >>= fun _ => pure ()) m = .ok () m' := by
    intro α revision
    rw [bind_eq_ok]
    exact ⟨fun ⟨a, h⟩ => ⟨a, m', h, rfl⟩, fun ⟨a, u, h, hpure⟩ => ⟨a, (pure_eq_ok.mp hpure).2 ▸ h⟩⟩
  cases edit with
  | addField name field =>
      exact Revision.map_outcome_eq_ok.trans ⟨fun ⟨⟨⟩, h⟩ => h, fun h => ⟨(), h⟩⟩
  | removeField name => exact Revision.map_outcome_eq_ok.trans hdrop
  | addIndex name fields =>
      exact Revision.map_outcome_eq_ok.trans ⟨fun ⟨⟨⟩, h⟩ => h, fun h => ⟨(), h⟩⟩
  | removeIndex name => exact Revision.map_outcome_eq_ok.trans hdrop

theorem edited_of_ok (h : m.edit edit = .ok m') : m.edited edit = m' := by
  rw [edited, edit_eq_ok.mp h]

/-- An edit that is refused leaves the model as it is. -/
theorem edited_of_error {e : SchemaError} (h : m.edit edit = .error e) : m.edited edit = m := by
  have hsparing : edit.revision.Sparing := by
    -- where an answer is dropped, it is dropped after everything else
    have hdrop : ∀ {α : Type} {revision : Revision α}, revision.Sparing →
        Revision.Sparing (revision >>= fun _ => pure ()) := by
      intro α revision h m e m' herror
      rcases bind_eq_error.mp herror with herror | ⟨a, u, -, hpure⟩
      · exact h m e m' herror
      · exact absurd hpure pure_ne_error
    cases edit with
    | addField name field => exact sparing_addField name field
    | removeField name => exact hdrop (sparing_removeField name)
    | addIndex name fields => exact sparing_addIndex name fields
    | removeIndex name => exact hdrop (sparing_removeIndex name)
  cases hrevision : edit.revision m with
  | ok a m' =>
      cases (edit_eq_ok.mpr hrevision).symm.trans h
  | error e' m' =>
      obtain rfl := hsparing m e' m' hrevision
      rw [edited, hrevision]

/-- An edit of a snapshot does to the model what its operation does to an entry of the state. -/
theorem edits_of_edit (h : m.edit edit = .ok m') :
    (edit.operation name).Edits app (some m) (some m') := by
  have hrevision := edit_eq_ok.mp h
  cases edit with
  | addField name field =>
      obtain ⟨hnone, hkey, rfl⟩ := addField_iff.mp hrevision
      refine .addFields (List.nodup_singleton _) ?_ (List.forall_mem_singleton.mpr hkey)
      exact List.disjoint_singleton.mpr (Named.get?_eq_none_iff.mp hnone)
  | removeField name =>
      obtain ⟨field, u, hremove, hpure⟩ := bind_eq_ok.mp hrevision
      obtain ⟨-, rfl⟩ := pure_eq_ok.mp hpure
      obtain ⟨hkey, hindexed, hfield, rfl⟩ := removeField_iff.mp hremove
      have herase : m.fields.erase name = m.fields.filter fun entry => entry.1 ∉ [name] := by
        simp only [Named.erase, List.mem_singleton]
      rw [herase]
      refine .removeFields (List.nodup_singleton _) (List.forall_mem_singleton.mpr ?_) ?_
        (List.forall_mem_singleton.mpr hindexed)
      · exact Named.mem_names_iff.mpr ⟨field, hfield⟩
      · exact fun hmem => hkey (List.mem_singleton.mp hmem)
  | addIndex name fields =>
      obtain ⟨hnone, hempty, hfields, rfl⟩ := addIndex_iff.mp hrevision
      exact .addIndex hnone hempty hfields
  | removeIndex name =>
      obtain ⟨fields, u, hremove, hpure⟩ := bind_eq_ok.mp hrevision
      obtain ⟨-, rfl⟩ := pure_eq_ok.mp hpure
      obtain ⟨hindex, rfl⟩ := removeIndex_iff.mp hremove
      exact .removeIndex (Named.mem_names_iff.mpr ⟨fields, hindex⟩)

/-- Where the operation is accepted, so is the edit. -/
theorem exists_edit_of_edits (h : (edit.operation name).Edits app (some m) r) :
    ∃ m', m.edit edit = .ok m' := by
  cases edit with
  | addField field added =>
      cases h with
      | addFields _ hdisjoint hkey =>
          have hnone := Named.get?_eq_none_iff.mpr (List.disjoint_singleton.mp hdisjoint)
          have hadd := addField_iff.mpr ⟨hnone, hkey _ (List.mem_singleton_self _), rfl⟩
          exact ⟨_, edit_eq_ok.mpr hadd⟩
  | removeField field =>
      cases h with
      | removeFields _ hnames hkey hindexed =>
          have hmem : field ∈ [field] := List.mem_singleton_self _
          obtain ⟨found, hfound⟩ := Named.mem_names_iff.mp (hnames field hmem)
          have hremove := removeField_iff.mpr
            ⟨fun heq => hkey (heq ▸ hmem), hindexed field hmem, hfound, rfl⟩
          exact ⟨_, edit_eq_ok.mpr (bind_eq_ok.mpr ⟨found, _, hremove, rfl⟩)⟩
  | addIndex index fields =>
      cases h with
      | addIndex hnone hempty hfields =>
          exact ⟨_, edit_eq_ok.mpr (addIndex_iff.mpr ⟨hnone, hempty, hfields, rfl⟩)⟩
  | removeIndex index =>
      cases h with
      | removeIndex hindex =>
          obtain ⟨fields, hfields⟩ := Named.mem_names_iff.mp hindex
          have hremove := removeIndex_iff.mpr ⟨hfields, rfl⟩
          exact ⟨_, edit_eq_ok.mpr (bind_eq_ok.mpr ⟨fields, _, hremove, rfl⟩)⟩

theorem name_edit (h : m.edit edit = .ok m') : m'.name = m.name := by
  have hedits : (edit.operation m.name).Edits m.app (some m) (some m') := edits_of_edit h
  have hname := hedits.name_eq (fun _ hm => Option.some.inj hm ▸ Edit.model_operation.symm) m' rfl
  rw [hname, Edit.model_operation]

/-- A model in a state is edited by the operation of the same change, also where that is refused. -/
theorem model?_tried_operation (hs : s.Sound) (hm : s.model? name = some m) :
    (s.tried (edit.operation name)).model? name = some (m.edited edit) := by
  have happlied : ∀ m', m.edit edit = .ok m' →
      (edit.operation name).apply s = .ok () (s.withEntry name (some m')) := by
    intro m' hedit
    refine (Operation.apply_eq_ok_iff hs).mpr ⟨some m', ?_, by rw [Edit.model_operation]⟩
    rw [Edit.model_operation, hm]
    exact edits_of_edit hedit
  cases hedit : m.edit edit with
  | ok m' =>
      have hname : ∀ n, some m' = some n → n.name = name := by
        rintro _ ⟨⟩
        rw [name_edit hedit, hs.name_eq name m hm]
      rw [AppSchema.tried_of_ok (happlied m' hedit), AppSchema.model?_withEntry hname, if_pos rfl,
        edited_of_ok hedit]
  | error e =>
      rw [edited_of_error hedit]
      cases htried : (edit.operation name).apply s with
      | ok _ t =>
          obtain ⟨r, hedits, -⟩ := (Operation.apply_eq_ok_iff hs).mp htried
          rw [Edit.model_operation, hm] at hedits
          obtain ⟨m', hok⟩ := exists_edit_of_edits hedits
          cases hedit.symm.trans hok
      | error e' t =>
          obtain rfl := Operation.sparing_part Edit.mem_parts_operation s e' t hs htried
          rw [AppSchema.tried_of_error htried, hm]

/-- What an edit makes of a sound and keyed model is one again. -/
theorem sound_keyed_edit (hs : m.Sound) (hk : m.Keyed app) (h : m.edit edit = .ok m') :
    m'.Sound ∧ m'.Keyed app := by
  have hedit : (edit.operation m.name).Edits app (some m) (some m') := edits_of_edit h
  have hkeyed := hedit.keyed (fun _ hm => Option.some.inj hm ▸ hk) m' rfl
  exact ⟨(hedit.changes Edit.model_operation.symm).sound hs, hkeyed⟩

/-- Every snapshot that can be made is sound and has its key, by induction on how it is made. -/
theorem Made.sound_keyed (h : m.Made app name) : m.name = name ∧ m.Sound ∧ m.Keyed app := by
  induction h with
  | declared hnames hname hbuild =>
      obtain ⟨hs, hk, hsame⟩ := build_eq_ok hnames hbuild
      exact ⟨hsame.trans hname, hs, hk⟩
  | ofParts hnames hparts =>
      obtain ⟨hs, hk, hname⟩ := sound_keyed_of_ofParts hnames hparts
      exact ⟨hname, hs, hk⟩
  | @edited m edit _ ih =>
      obtain ⟨hname, hs, hk⟩ := ih
      cases hedit : m.edit edit with
      | ok m' =>
          rw [edited_of_ok hedit]
          exact ⟨(name_edit hedit).trans hname, sound_keyed_edit hs hk hedit⟩
      | error e =>
          rw [edited_of_error hedit]
          exact ⟨hname, hs, hk⟩

end Model

open Operation

/-- What operations lead to, whether they are accepted or refused, is a state whose models go by
their names and belong to the app. Each has its key and no other, and its indexes are over fields
that it has, at least one each. An operation changes no model but the one that it names, and no name
of a migration. Such a model is also what is built, made of parts or edited on its own, and stays
what it is where an edit is refused. In a state it is edited by the operation of the same change. -/
theorem reached_in_order (app : String) :
    (∀ s : AppSchema, s.Reachable app → s.app = app ∧ s.Sound ∧ s.Keyed ∧
      ∀ operation : Operation, operation.FieldsDiffer →
        (s.tried operation).migrations = s.migrations ∧
        ∀ name, name ≠ operation.model → (s.tried operation).model? name = s.model? name) ∧
    ∀ (name : String) (m : Model), m.Made app name → m.name = name ∧ m.Sound ∧ m.Keyed app ∧
      (∀ edit e, m.edit edit = .error e → m.edited edit = m) ∧
      ∀ s : AppSchema, s.Sound → s.model? name = some m →
        ∀ edit, (s.tried (edit.operation name)).model? name = some (m.edited edit) := by
  constructor
  · intro s h
    obtain ⟨happ, hs, hk⟩ := h.sound_keyed
    refine ⟨happ, hs, hk, fun operation hfields => ⟨AppSchema.migrations_tried hs hfields, ?_⟩⟩
    exact fun name hname => AppSchema.model?_tried hs hfields hname
  · intro name m h
    obtain ⟨hname, hs, hk⟩ := h.sound_keyed
    exact ⟨hname, hs, hk, fun edit e => Model.edited_of_error, fun s hsound hm edit =>
      Model.model?_tried_operation hsound hm⟩

/-- The notes with the label that was added before the text was refused. -/
def halfLabelled : AppSchema := noteState.tried AppSchema.labelAndText

def memosAdded : Operation := .createModel "Memo" none noteModel.fields

def indexedNotes : AppSchema := noteState.tried (.addIndex "Note" "note_text" ["text"])

def indexedNote : Model := noteModel.edited (.addIndex "note_text" ["text"])

/-- The notes are in order with half of what was to be added, and while memos are added. So is a
note on its own whose text cannot be removed for its index, and it stays among the notes. -/
theorem half_labelled_in_order :
    (halfLabelled.Reachable "notes" ∧ halfLabelled.Sound ∧ halfLabelled.Keyed ∧
      memosAdded.FieldsDiffer ∧ "Note" ≠ memosAdded.model ∧
      (halfLabelled.tried memosAdded).migrations = ["0001_initial"] ∧
      (halfLabelled.tried memosAdded).model? "Note" = halfLabelled.model? "Note") ∧
    indexedNote.Made "notes" "Note" ∧ indexedNote.Sound ∧ indexedNote.Keyed "notes" ∧
    indexedNote.edit (.removeField "text")
      = .error (.faultyModel "Note" (.indexedFieldRemoved "text")) ∧
    indexedNote.edited (.removeField "text") = indexedNote ∧
    indexedNotes.Sound ∧ indexedNotes.model? "Note" = some indexedNote ∧
    (indexedNotes.tried (.removeFields "Note" ["text"])).model? "Note" = some indexedNote := by
  have hreachable : halfLabelled.Reachable "notes" :=
    .tried AppSchema.labelAndText AppSchema.reachable_noteState (by decide)
  have hmade : indexedNote.Made "notes" "Note" :=
    .edited _ (@Model.Made.ofParts _ _ "note" noteModel.fields [] _ (by decide) rfl)
  have hindexed : indexedNotes.Reachable "notes" :=
    .tried (.addIndex "Note" "note_text" ["text"]) AppSchema.reachable_noteState trivial
  obtain ⟨hstates, hmodels⟩ := reached_in_order "notes"
  obtain ⟨-, hs, hk, hoperations⟩ := hstates halfLabelled hreachable
  obtain ⟨hmigrations, hothers⟩ := hoperations memosAdded (by decide)
  obtain ⟨-, hms, hmk, hedits, hinState⟩ := hmodels "Note" indexedNote hmade
  have hkept := hedits (.removeField "text") _ rfl
  have hmodel := hinState indexedNotes hindexed.sound rfl (.removeField "text")
  rw [hkept] at hmodel
  exact ⟨⟨hreachable, hs, hk, by decide, by decide, hmigrations, hothers "Note" (by decide)⟩,
    hmade, hms, hmk, rfl, hkept, hindexed.sound, rfl, hmodel⟩

end SchemaHistory
