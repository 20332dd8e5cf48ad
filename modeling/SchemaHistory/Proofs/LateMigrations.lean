import SchemaHistory.Proofs.Agreement
import SchemaHistory.Proofs.CatchingUp

/-!
# Late migrations

A migration is late where it comes before others that are recorded already. It is carried out on
tables that those have changed, but its script starts from the state before it, where they are not
to be found. If it builds a table anew then, what they have added to the table is gone.

* `Migrator.late_migrations_lose_nothing`: where the late migrations pass the recorded ones behind
  them, the database comes to hold the state of the whole list, and rows keep what they had. A late
  migration passes if it builds no table anew that those have changed, and neither it nor one of
  those goes by what the other changes.
* `Migrator.label_lost`: labels and their values are lost where a table is built anew.
* `Migrator.score_left_over`: nor does it do to change tables in place, where a table has been
  dropped and created once more.
-/

namespace SchemaHistory

theorem Database.obeys_backend (compares : Comparison → Value → Value → Truth) (dialect : Dialect)
    (now : DateTime) : (Database.backend compares dialect now).Obeys
      fun statement db => db.execute compares statement where
  ok statement db count db' h := by
    unfold Database.backend at h
    dsimp only at h
    unfold Database.execute
    split at h
    · cases h
    · split at h
      · next catalog hcatalog =>
          cases h
          rw [hcatalog]
          rfl
      · cases h
  error statement db e db' h := by
    unfold Database.backend at h
    dsimp only at h
    unfold Database.execute
    split at h
    · rfl
    · split at h
      · cases h
      · next hnone =>
          rw [hnone]
          rfl

namespace Migration

/-! ### What a late migration passes -/

/-- A late migration passes one that was carried out before it, though it stands behind it. -/
def Passes (capabilities : Capabilities) (late other : Migration) : Prop :=
  ∀ operation ∈ late.operations, ∀ earlier ∈ other.operations,
    operation.Passes capabilities earlier

/-- The parts of models that some migrations remove. -/
def Lost (migrations : List Migration) (name : String) (part : Part) : Prop :=
  ∃ migration ∈ migrations, ∃ operation ∈ migration.operations,
    operation.model = name ∧ operation.removes part = true

variable {app : String} {recorded : Migration → Bool} {ordered earlier rest : List Migration}
  {pending ahead : List Operation} {dialect : Dialect} {now : DateTime}
  {compares : Comparison → Value → Value → Truth} {s t u whole : AppSchema}
  {db between db' : Database} {steps : Steps}

/-! ### Catching up with migrations -/

/-- The operations of a recorded migration are there. -/
theorem catchesUp_of_path (hpath : AppSchema.Path s steps u)
    (h : CatchesUp (Database.backend compares dialect now) pending ahead u db t db') :
    CatchesUp (Database.backend compares dialect now) pending
      (steps.map (·.1) ++ ahead) s db t db' := by
  induction hpath with
  | nil => exact h
  | cons happly _ ih => exact .recorded happly (ih h)

/-- The operations of a late migration are carried out. -/
theorem catchesUp_of_forwardAll (hpath : AppSchema.Path s steps u)
    (hpending : ∀ operation ∈ steps.map (·.1), operation ∈ pending)
    (hpasses : ∀ operation ∈ steps.map (·.1), ∀ other ∈ ahead,
      operation.Passes dialect.capabilities other)
    (hforward : forwardAll (Database.backend compares dialect now) steps db = .ok () between)
    (h : CatchesUp (Database.backend compares dialect now) pending ahead u between t db') :
    CatchesUp (Database.backend compares dialect now) pending ahead s db t db' := by
  induction hpath generalizing db with
  | nil =>
      obtain rfl := forM_nil_eq_ok.mp hforward
      exact h
  | cons happly _ ih =>
      obtain ⟨middle, hfirst, hforward⟩ := forM_cons_eq_ok.mp hforward
      obtain ⟨hmem, hpending⟩ := List.forall_mem_cons.mp hpending
      obtain ⟨hpass, hpasses⟩ := List.forall_mem_cons.mp hpasses
      exact .late hmem hpass happly hfirst (ih hpending hpasses hforward h)

/-- A database that carries out the migrations of a list that are not recorded catches up with the
list. -/
theorem Carried.catchesUp (hnodup : ordered.Nodup) (hordered : ordered = earlier ++ rest)
    (hreplay : AppSchema.replay app earlier = .ok s)
    (hwhole : rest.foldlM AppSchema.next s = .ok whole)
    (hpending : ∀ migration ∈ rest, recorded migration = false →
      ∀ operation ∈ migration.operations, operation ∈ pending)
    (hpasses : rest.Pairwise fun late other =>
      recorded late = false → recorded other = true → late.Passes dialect.capabilities other)
    (h : Carried (fun statement db => db.execute compares statement)
      (HasScript dialect now app false ordered) (rest.filter (!recorded ·)) db db') :
    CatchesUp (Database.backend compares dialect now) pending
      ((rest.filter recorded).flatMap (·.operations)) s db whole db' := by
  induction rest generalizing earlier s db with
  | nil =>
      cases hwhole
      cases h
      exact .done _ _
  | cons migration rest ih =>
      rw [List.foldlM_cons] at hwhole
      obtain ⟨next, hnext, hwhole⟩ := Except.bind_eq_ok.mp hwhole
      have hthen : AppSchema.replay app (earlier ++ [migration]) = .ok next :=
        AppSchema.replay_append_singleton.mpr ⟨s, hreplay, hnext⟩
      obtain ⟨-, steps, u, hpath, hmap, rfl⟩ := AppSchema.next_eq_ok.mp hnext
      obtain ⟨hmigration, hpending⟩ := List.forall_mem_cons.mp hpending
      obtain ⟨hpass, hpasses⟩ := List.pairwise_cons.mp hpasses
      have hplace : ordered = earlier ++ [migration] ++ rest := by
        rw [hordered, List.append_assoc, List.singleton_append]
      cases hrecorded : recorded migration with
      | true =>
          rw [List.filter_cons_of_neg (by simp [hrecorded])] at h
          rw [List.filter_cons_of_pos hrecorded, List.flatMap_cons, ← hmap]
          exact catchesUp_of_path hpath
            (.marked migration (ih hplace hthen hwhole hpending hpasses h))
      | false =>
          rw [List.filter_cons_of_pos (by simp [hrecorded])] at h
          rw [List.filter_cons_of_neg (by simp [hrecorded])]
          cases h with
          | @cons _ _ statements _ between _ hscript heffects hrest =>
              obtain ⟨state, hreplay', hscript⟩ := hscript.state hnodup hordered
              obtain rfl : s = state := Except.ok.inj (hreplay.symm.trans hreplay')
              have hforward := (Scripted.forwardAll _).ok_of_recording
                (Database.obeys_backend compares dialect now)
                  (recording_of_script hpath hmap hscript)
                heffects
              refine catchesUp_of_forwardAll hpath ?_ ?_ hforward
                (.marked migration (ih hplace hthen hwhole hpending hpasses hrest))
              · rw [hmap]
                exact hmigration hrecorded
              · rw [hmap]
                intro operation hoperation other hother
                obtain ⟨later, hlater, hother⟩ := List.mem_flatMap.mp hother
                obtain ⟨hlater, hrec⟩ := List.mem_filter.mp hlater
                exact hpass later hlater hrecorded hrec operation hoperation other hother

end Migration

namespace Migrator

variable {σ : Type} {backend : Backend σ} {compares : Comparison → Value → Value → Truth}
  {view : σ → View Database} {app : String} {migrations ordered : List Migration}
  {state whole : AppSchema} {τ τ' : Transcript σ}

/-- Let a sound database hold the state that the recorded migrations lead to, and let each migration
that is not recorded pass the recorded ones behind it. When applying succeeds, in whatever dialect,
the database is sound and holds the state that the whole list leads to. Of the fields, the indexes
and the rows that were there, all is kept that the migrations which were applied do not remove. -/
theorem late_migrations_lose_nothing
    (h : backend.Reliable (fun statement db => db.execute compares statement) view)
    (horder : Migration.InOrder app migrations ordered)
    (hfields : ∀ migration ∈ migrations, migration.FieldsDiffer)
    (hwhole : AppSchema.replay app ordered = .ok whole)
    (hrecorded : AppSchema.replay app (Ledger.recorded (view τ.database).ledger app ordered)
      = .ok state)
    (hheld : state.HeldBy (view τ.database).contents.catalog)
    (hsound : (view τ.database).contents.Sound) (hclosed : (view τ.database).saved = none)
    (hpasses : ∀ late ∈ Ledger.pending (view τ.database).ledger app none ordered,
      ∀ other ∈ Ledger.recorded (view τ.database).ledger app ordered,
        late.name < other.name → late.Passes backend.dialect.capabilities other)
    {names : List String} (hok : Migrator.apply { backend } app migrations none τ = .ok names τ') :
    whole.HeldBy (view τ'.database).contents.catalog ∧ (view τ'.database).contents.Sound ∧
      state.Retained (Migration.Lost
        (Ledger.pending (view τ.database).ledger app none ordered)) whole
        (view τ.database).contents (view τ'.database).contents := by
  have hreliable : (Migrator.mk backend false).backend.Reliable
      (fun statement db => db.execute compares statement) view := h
  have hcarried := apply_carries hreliable rfl horder hclosed hok
  set ledger := (view τ.database).ledger with hledger
  let recorded : Migration → Bool := fun migration => ledger.any (·.isFor app migration.name)
  have hpending : Ledger.pending ledger app none ordered = ordered.filter (!recorded ·) := by
    have hall : ordered.filter (isWithin none) = ordered :=
      List.filter_eq_self.mpr fun _ _ => rfl
    show (ordered.filter (isWithin none)).filter _ = _
    rw [hall]
  have hdiffer : ∀ migration ∈ ordered, migration.FieldsDiffer :=
    fun migration hmem => hfields migration (horder.perm.mem_iff.mp hmem)
  have hofRecorded : ∀ migration ∈ ordered.filter recorded, migration.FieldsDiffer :=
    fun migration hmem => hdiffer migration (List.mem_filter.mp hmem).1
  rw [hpending] at hcarried hpasses ⊢
  -- in the list no migration stands behind one of a later name
  have hpairwise : ordered.Pairwise fun late other => recorded late = false →
    recorded other = true →
      late.Passes backend.dialect.capabilities other := by
    refine List.Pairwise.imp_of_mem ?_ horder.ascending
    intro late other hlate hother hlt hnew hrec
    exact hpasses late (List.mem_filter.mpr ⟨hlate, by simp [hnew]⟩) other
      (List.mem_filter.mpr ⟨hother, hrec⟩) hlt
  have hcatches : CatchesUp (Database.backend compares backend.dialect backend.now)
      ((ordered.filter (!recorded ·)).flatMap (·.operations))
      ((ordered.filter recorded).flatMap (·.operations)) { app } (view τ.database).contents whole
      (view τ'.database).contents :=
    hcarried.catchesUp horder.nodup (List.nil_append _).symm rfl hwhole
      (fun migration hmem hnew operation hoperation => List.mem_flatMap.mpr
        ⟨migration, List.mem_filter.mpr ⟨hmem, by simp [hnew]⟩, hoperation⟩) hpairwise
  have hstart : Forerun ((ordered.filter recorded).flatMap (·.operations)) { app } state
      (view τ.database).contents :=
    { app_eq := AppSchema.app_eq_of_replay hrecorded
      sound := AppSchema.replay_sound hofRecorded hrecorded
      keyed := AppSchema.replay_keyed hofRecorded hrecorded
      leaves := fun name part =>
        (AppSchema.editsAll_of_replay name hofRecorded hrecorded).leaves
      held := hheld
      rows := hsound }
  have hall : ∀ {among : List Migration}, (∀ migration ∈ among, migration.FieldsDiffer) →
      ∀ operation ∈ among.flatMap (·.operations), operation.FieldsDiffer := by
    intro among hamong operation hoperation
    obtain ⟨migration, hmem, hoperation⟩ := List.mem_flatMap.mp hoperation
    exact hamong migration hmem operation hoperation
  obtain ⟨hwholeSound, u, hu, hretained⟩ := hstart.catchesUp AppSchema.sound_init nofun
    (hall hofRecorded) (hall fun migration hmem => hdiffer migration (List.mem_filter.mp hmem).1)
    hcatches
  obtain ⟨halike, hheld'⟩ := hu.heldBy hwholeSound
  refine ⟨hheld', hu.rows, (hretained.mono ?_).trans (halike.retained hu.sound hwholeSound)⟩
  rintro name part ⟨operation, hoperation, rfl, hremoves⟩
  obtain ⟨migration, hmem, hoperation⟩ := List.mem_flatMap.mp hoperation
  exact ⟨migration, hmem, operation, hoperation, rfl, hremoves⟩

/-! ### Late migrations among notes -/

section Notes

open Backend Operation

/-- A score for the notes, which is nought in those that there are. -/
def scoreAdded : Operation :=
  .addFields "Note" [("score", { Field.ofKind .integer with default := some (.int 0) })]

def scoreMigration : Migration where
  app := "notes"
  name := "0002_score"
  operations := [scoreAdded]

def labelMigration : Migration where
  app := "notes"
  name := "0003_label"
  operations := [.addFields "Note" [("label", { Field.ofKind .text with null := true })]]

/-- The notes are deleted, and created once more. -/
def renewalMigration : Migration where
  app := "notes"
  name := "0003_renewal"
  operations := [.deleteModel "Note", .createModel "Note" (some "note") noteModel.fields]

def labelledNote : Model :=
  { noteModel with
    fields := noteModel.fields ++ [("label", { Field.ofKind .text with null := true })] }

def labelledState : AppSchema where
  app := "notes"
  models := [("Note", labelledNote)]
  migrations := ["0001_initial", "0003_label"]

def redRecord (id : Int64) (text : String) : Record :=
  Record.assign [("id", .int id), ("text", .text text), ("label", .text "red")] fun _ => none

/-- A database that refuses nothing but what its catalog does not allow. -/
def plainStore (dialect : Dialect) : Backend (Store Database) :=
  Store.backend dialect noteMoment
    (fun statement db => db.execute (fun _ _ _ => .unknown) statement)
    fun _ _ => false

/-- There is a database, and the first and the third migration are recorded. -/
def lateStart (contents : Database) (third : Migration) : Transcript (Store Database) :=
  ⟨⟨⟨contents, [⟨1, "notes", "0001_initial", "0001", none⟩, ⟨2, "notes", third.name, "0003", none⟩],
    none, 0⟩, 0⟩, #[]⟩

/-- What the notes hold as their text and as their label. -/
def textsAndLabels (db : Database) : List (Option Value × Option Value) :=
  (db.rows "note").map fun record => (record "text", record "label")

theorem heldBy_labelled : labelledState.HeldBy (twoNotes labelledNote redRecord).catalog := by
  have hmodel : ∀ name m, labelledState.model? name = some m → name = "Note" ∧
      m.columns = ["id", "text", "label"] := by
    intro name m hm
    obtain ⟨hname, rfl⟩ := Prod.mk.inj (List.mem_singleton.mp (Named.mem_of_get? hm))
    exact ⟨hname, rfl⟩
  refine AppSchema.heldBy_of_eq ⟨fun name m name' m' hm hm' hne => ?_, fun name m hm => ?_⟩ rfl
  · exact absurd ((hmodel _ _ hm).1.trans (hmodel _ _ hm').1.symm) hne
  · rw [(hmodel _ _ hm).2]
    decide

theorem sound_labelled : (twoNotes labelledNote redRecord).Sound := by
  refine sound_twoNotes (by decide) fun id text column => ?_
  simp [redRecord, Record.assign_ne_none_iff, AppSchema.names_tableColumns, Model.columns,
    labelledNote,
    noteModel, Field.columnName, Field.ofKind]

/-- A third migration after the first two is met last. -/
theorem inOrder_late (third : Migration) (happ : third.app = "notes")
    (hname : "0002_score" < third.name)
    (hnumbered : third.Numbered) :
    Migration.InOrder "notes" [noteMigration, scoreMigration, third]
      [noteMigration, scoreMigration, third] where
  perm := .refl _
  ascending := by
    refine List.pairwise_cons.mpr ⟨fun other hother => ?_, List.pairwise_pair.mpr hname⟩
    rcases List.mem_pair.mp hother with rfl | rfl
    · decide
    · exact lt_trans (by decide) hname
  app_eq := by simp [noteMigration, scoreMigration, happ]
  numbered := by
    have hfirst : noteMigration.Numbered := by unfold Migration.Numbered; decide
    have hsecond : scoreMigration.Numbered := by unfold Migration.Numbered; decide
    simp [hfirst, hnumbered, hsecond]

/-- Where columns are changed in place, the score passes the label. -/
theorem score_passes_label {capabilities : Capabilities}
    (h : capabilities.altersNullability = true) :
    scoreMigration.Passes capabilities labelMigration := by
  intro operation hoperation earlier hearlier _ part
  obtain rfl := List.mem_singleton.mp hoperation
  obtain rfl := List.mem_singleton.mp hearlier
  cases part <;> simp [scoreAdded, changes, concerns, InPlace, Named.names, h]
  constructor <;> rintro rfl <;> decide

/-- A database that changes its tables in place and does without transactions. -/
def stepwiseStore : Backend (Store Database) := plainStore (.generic "stepwise" ⟨true, true, false⟩)

/-- The score comes late. It is added to the notes, and these keep their labels. -/
theorem score_added_late : ∃ whole names τ,
    AppSchema.replay "notes" [noteMigration, scoreMigration, labelMigration] = .ok whole ∧
    Migrator.apply { backend := stepwiseStore } "notes"
      [noteMigration, scoreMigration, labelMigration] none
      (lateStart (twoNotes labelledNote redRecord) labelMigration) = .ok names τ ∧
    whole.HeldBy τ.database.view.contents.catalog ∧ τ.database.view.contents.Sound ∧
    labelledState.Retained (Migration.Lost [scoreMigration]) whole (twoNotes labelledNote redRecord)
      τ.database.view.contents := by
  have horder := inOrder_late labelMigration rfl (by decide) (by unfold Migration.Numbered; decide)
  have hreliable : stepwiseStore.Reliable
      (fun statement db => db.execute (fun _ _ _ => .unknown) statement) Store.view :=
    Store.reliable _ _ _ _
  have hfields : ∀ migration ∈ [noteMigration, scoreMigration, labelMigration],
      migration.FieldsDiffer := by decide
  have hrecorded : AppSchema.replay "notes" (Ledger.recorded
      (lateStart (twoNotes labelledNote redRecord) labelMigration).database.view.ledger "notes"
      [noteMigration, scoreMigration, labelMigration]) = .ok labelledState := rfl
  have hpasses : ∀ late ∈ [scoreMigration], ∀ other ∈ [noteMigration, labelMigration],
      late.name < other.name → late.Passes stepwiseStore.dialect.capabilities other := by
    intro late hlate other hother hlt
    obtain rfl := List.mem_singleton.mp hlate
    rcases List.mem_pair.mp hother with rfl | rfl
    · exact absurd hlt (by decide)
    · exact score_passes_label rfl
  have hrun : ∃ names τ, Migrator.apply { backend := stepwiseStore } "notes"
      [noteMigration, scoreMigration, labelMigration] none
      (lateStart (twoNotes labelledNote redRecord) labelMigration) = .ok names τ := by
    unfold Migrator.apply
    rw [horder.sorted_eq]
    exact ⟨_, _, rfl⟩
  obtain ⟨names, τ, hrun⟩ := hrun
  exact ⟨_, names, τ, rfl, hrun, late_migrations_lose_nothing hreliable horder hfields rfl hrecorded
    heldBy_labelled sound_labelled rfl hpasses hrun⟩

/-- A database whose table has other columns does not hold the state. -/
theorem not_heldBy_of_names {s : AppSchema} {db : Catalog} {table : String}
    {names names' : List String}
    (hs : (s.catalog.tables table).map (·.map (·.name)) = some names)
    (hdb : (db.tables table).map (·.map (·.name)) = some names')
    (hlength : names.length ≠ names'.length) : ¬s.HeldBy db := by
  intro hheld
  have hlike := hheld.like.tables table
  obtain ⟨columns, hcolumns, rfl⟩ := Option.map_eq_some_iff.mp hs
  obtain ⟨columns', hcolumns', rfl⟩ := Option.map_eq_some_iff.mp hdb
  rw [hcolumns, hcolumns'] at hlike
  cases hlike with
  | some hperm => exact hlength (by simp [hperm.length_eq])

/-- What a call that succeeds answers, and what it leaves of the notes: their columns, texts and
labels. -/
def finding (result : EStateM.Result MigrationError (Transcript (Store Database)) (List String)) :
    Option (List String × Option (List String) × List (Option Value × Option Value)) :=
  match result with
  | .ok names τ => some (names,
    (τ.database.view.contents.catalog.tables "note").map (·.map (·.name)),
    textsAndLabels τ.database.view.contents)
  | .error .. => none

/-- What is found of a run that succeeds: its answer, the columns of the table and the notes in
it. -/
theorem finding_eq_some
    {result : EStateM.Result MigrationError (Transcript (Store Database)) (List String)}
    {answer : List String} {columns : Option (List String)}
    {notes : List (Option Value × Option Value)}
    (h : finding result = some (answer, columns, notes)) :
    ∃ names τ, result = .ok names τ ∧ names = answer ∧
      (τ.database.view.contents.catalog.tables "note").map (·.map (·.name)) = columns ∧
      textsAndLabels τ.database.view.contents = notes := by
  cases result with
  | ok names τ =>
      cases h
      exact ⟨_, τ, rfl, rfl, rfl, rfl⟩
  | error e τ => cases h

/-- The score comes late. The table is built anew without the labels, which nothing has removed. -/
theorem label_lost : ∃ whole names τ,
    AppSchema.replay "notes" [noteMigration, labelMigration] = .ok labelledState ∧
    labelledState.HeldBy (twoNotes labelledNote redRecord).catalog ∧
    (twoNotes labelledNote redRecord).Sound ∧
    AppSchema.replay "notes" [noteMigration, scoreMigration, labelMigration] = .ok whole ∧
    Migrator.apply { backend := plainStore .sqlite } "notes"
      [noteMigration, scoreMigration, labelMigration] none
      (lateStart (twoNotes labelledNote redRecord) labelMigration) = .ok names τ ∧
    names = ["0002_score"] ∧ ¬whole.HeldBy τ.database.view.contents.catalog ∧
    textsAndLabels (twoNotes labelledNote redRecord)
      = [(some (.text "first"), some (.text "red")), (some (.text "second"), some (.text "red"))] ∧
    textsAndLabels τ.database.view.contents
      = [(some (.text "first"), none), (some (.text "second"), none)] := by
  have horder := inOrder_late labelMigration rfl (by decide) (by unfold Migration.Numbered; decide)
  have hfound : finding (Migrator.apply { backend := plainStore .sqlite } "notes"
      [noteMigration, scoreMigration, labelMigration] none
      (lateStart (twoNotes labelledNote redRecord) labelMigration))
      = some (["0002_score"], some ["id", "text", "score"],
        [(some (.text "first"), none), (some (.text "second"), none)]) := by
    unfold Migrator.apply
    rw [horder.sorted_eq]
    decide +kernel
  obtain ⟨names, τ, hrun, hnames, hcolumns, hlabels⟩ := finding_eq_some hfound
  obtain ⟨whole, hwhole, hall⟩ : ∃ whole, AppSchema.replay "notes"
      [noteMigration, scoreMigration, labelMigration] = .ok whole ∧
      (whole.catalog.tables "note").map (·.map (·.name)) = some ["id", "text", "score", "label"] :=
    ⟨_, rfl, by decide +kernel⟩
  exact ⟨whole, names, τ, rfl, heldBy_labelled, sound_labelled, hwhole, hrun, hnames,
    not_heldBy_of_names hall hcolumns (by decide), by decide +kernel, hlabels⟩

/-- It is not enough that tables are changed in place. Where the notes have been created once more,
they get a score that the list does not give them. -/
theorem score_left_over : ∃ state whole names τ,
    AppSchema.replay "notes" [noteMigration, renewalMigration] = .ok state ∧
    state.HeldBy (twoNotes noteModel noteRecord).catalog ∧
    AppSchema.replay "notes" [noteMigration, scoreMigration, renewalMigration] = .ok whole ∧
    scoreAdded.InPlace (plainStore .postgres).dialect.capabilities ∧
    Migrator.apply { backend := plainStore .postgres } "notes"
      [noteMigration, scoreMigration, renewalMigration] none
      (lateStart (twoNotes noteModel noteRecord) renewalMigration) = .ok names τ ∧
    ¬whole.HeldBy τ.database.view.contents.catalog := by
  have horder := inOrder_late renewalMigration rfl (by decide)
    (by unfold Migration.Numbered; decide)
  have hfound : finding (Migrator.apply { backend := plainStore .postgres } "notes"
      [noteMigration, scoreMigration, renewalMigration] none
      (lateStart (twoNotes noteModel noteRecord) renewalMigration))
      = some (["0002_score"], some ["id", "text", "score"],
        [(some (.text "first"), none), (some (.text "second"), none)]) := by
    unfold Migrator.apply
    rw [horder.sorted_eq]
    decide +kernel
  obtain ⟨names, τ, hrun, -, hcolumns, -⟩ := finding_eq_some hfound
  obtain ⟨whole, hwhole, hall⟩ : ∃ whole, AppSchema.replay "notes"
      [noteMigration, scoreMigration, renewalMigration] = .ok whole ∧
      (whole.catalog.tables "note").map (·.map (·.name)) = some ["id", "text"] :=
    ⟨_, rfl, by decide +kernel⟩
  exact ⟨_, whole, names, τ, rfl,
    AppSchema.heldBy_of_eq ⟨separate_noteState.apart, separate_noteState.columns⟩ rfl,
      hwhole, .inl rfl,
    hrun, not_heldBy_of_names hall hcolumns (by decide)⟩

end Notes

end Migrator

end SchemaHistory
