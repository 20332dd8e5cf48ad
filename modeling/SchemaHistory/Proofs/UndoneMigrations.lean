import SchemaHistory.Proofs.Attempts
import SchemaHistory.Proofs.Courses
import SchemaHistory.Proofs.RecordedDependencies

/-!
# Migrations that fail without a transaction

Where changes to tables are no part of a transaction, a migration is carried out operation by
operation. If one of them fails, those that are complete are undone, the last one first, as far as
that goes. If all are complete and the row of the migration is refused, nothing is undone
(`FailsStepwise`). Either way there is no row for the migration (`stepwise_failure_undone`).
-/

namespace SchemaHistory

namespace Migration

/-- How a migration that is carried out operation by operation has failed, as the log shows. -/
inductive FailsStepwise {σ : Type} (log : σ → List Event) (backend : Backend σ)
    (migration : Migration) (steps : Steps) (s t : σ) (e : MigrationError) : Prop where
  /-- Some operations have been carried out and the next one has failed. Then those that are
  complete have been undone, the last one first, up to where a statement was refused, if one was. -/
  | undone (completed rest : Steps) (operation : Operation) (step : AppSchema.Step) (u v : σ) :
      steps = completed ++ (operation, step) :: rest →
      log u = log s ++ carriedOut (attempt backend.dialect backend.now fun recorder =>
        forwardAll recorder completed).1 →
      operation.forward backend step u = .error e v →
      Tried log (attempt backend.dialect backend.now fun recorder =>
        operation.forward recorder step).1 u v →
      Tried log (attempt backend.dialect backend.now fun recorder =>
        backwardAll recorder completed).1 v t → FailsStepwise log backend migration steps s t e
  /-- All operations have been carried out, and the row of the migration was refused. -/
  | unrecorded :
      log t = log s ++ carriedOut (attempt backend.dialect backend.now fun recorder =>
          forwardAll recorder steps).1
        ++ [⟨.execute (Migrator.recordingOf backend.now migration), false⟩] →
      FailsStepwise log backend migration steps s t e

end Migration

theorem Backend.KeepsLedger.logging {σ κ : Type} {backend : Backend σ} {view : σ → View κ}
    (h : backend.KeepsLedger view) : backend.logging.KeepsLedger fun s => view s.1 := by
  intro statement s e t hclosed herror
  exact h statement _ e _ hclosed (Backend.recordIn_eq_error.mp herror).1

/-- A store is as it was after a statement that it has refused. -/
theorem Store.keepsLedger {κ : Type} (dialect : Dialect) (now : DateTime)
    (effect : Statement → κ → Option κ) (faults : Nat → Option Statement → Bool) :
    (Store.backend dialect now effect faults).KeepsLedger Store.view := by
  intro statement s e t hclosed herror
  rw [request_eq_error (show Store.execute .. = _ from herror)]
  exact ⟨rfl, hclosed⟩

namespace Migrator

variable {σ κ : Type} {migrator : Migrator σ} {log : σ → List Event}
  {effect : Statement → κ → Option κ} {view : σ → View κ} {τ τ' : Transcript σ}
  {state : AppSchema} {migration : Migration} {app name : String} {e cause : MigrationError}

/-! ### One migration -/

section Stepwise

variable (hlogs : migrator.backend.Logs log)

include hlogs

/-- What is undone has been tried, with the console left aside. -/
theorem tried_of_undoCompleted {completed : Migration.Steps}
    (h : migrator.undoCompleted migration completed τ = .ok () τ') :
    Tried log (Migration.attempt migrator.backend.dialect migrator.backend.now fun recorder =>
      Migration.backwardAll recorder completed).1 τ.database τ'.database := by
  obtain ⟨⟨⟩, τ₁, hreport, h⟩ := bind_eq_ok.mp h
  obtain ⟨answer, τ₂, hattempt, h⟩ := bind_eq_ok.mp h
  have hanswer := Run.attempt_eq_ok.mp hattempt
  rw [← database_of_report hreport]
  cases answer with
  | ok a =>
      obtain ⟨t, hwork, rfl⟩ := Run.onDatabase_eq_ok.mp hanswer
      cases h
      exact hlogs.tried_of_scripted (.backwardAll completed)
        (show _ = Backend.answered (.ok a) t from hwork)
  | error e =>
      obtain ⟨t, hwork, rfl⟩ := Run.onDatabase_eq_error.mp hanswer
      cases h
      exact hlogs.tried_of_scripted (.backwardAll completed)
        (show _ = Backend.answered (.error e) t from hwork)

/-- A recording that fails has made one request, which was refused. -/
theorem log_of_record {s t : σ} (h : migrator.record migration s = .error e t) :
    log t = log s ++ [⟨.execute (recordingOf migrator.backend.now migration), false⟩] := by
  obtain ⟨cause, hinsert, -⟩ := adaptExcept_eq_error.mp h
  rcases bind_eq_error.mp hinsert with hexecute | ⟨count, u, -, hpure⟩
  · exact (hlogs.execute _).error _ _ _ hexecute
  · exact absurd hpure pure_ne_error

/-- Stepwise application that fails has failed in one of the ways of `FailsStepwise`. -/
theorem failsStepwise_of_applyStepwise {steps : Migration.Steps}
    (h : migrator.applyStepwise migration steps τ = .error e τ') :
    migration.FailsStepwise log migrator.backend steps τ.database τ'.database e := by
  rcases bind_eq_error.mp h with hwork | ⟨⟨completed, failure⟩, τ₁, hwork, h⟩
  · obtain ⟨t, hforward, -⟩ := Run.onDatabase_eq_error.mp hwork
    exact absurd hforward Migration.forwardCompleted_ne_error
  obtain ⟨t, hforward, rfl⟩ := Run.onDatabase_eq_ok.mp hwork
  cases Migration.forwardCompleted_eq_ok hforward with
  | all hall =>
      obtain ⟨-, hcarried⟩ := hlogs.carried_of_scripted (.forwardAll _) hall
      obtain ⟨u, hrecord, rfl⟩ := Run.onDatabase_eq_error.mp h
      refine .unrecorded ?_
      rw [log_of_record hlogs hrecord, hcarried]
  | failed hsteps hall hfails =>
      obtain ⟨-, hcarried⟩ := hlogs.carried_of_scripted (.forwardAll completed) hall
      rcases bind_eq_error.mp h with hundo | ⟨⟨⟩, τ₂, hundo, hthrow⟩
      · exact (eq_of_undoCompleted hundo).elim
      · obtain ⟨rfl, rfl⟩ := throw_eq_error.mp hthrow
        refine .undone completed _ _ _ _ t hsteps hcarried hfails ?_ ?_
        · exact hlogs.tried_of_scripted (.forward _ _)
            (show _ = Backend.answered (.error _) t from hfails)
        · exact tried_of_undoCompleted hlogs hundo

theorem failsStepwise_of_perform (hdry : migrator.dryRun = false)
    (hstepwise : migrator.backend.dialect.capabilities.transactional = false)
    (happ : migration.app = state.app) {steps : List AppSchema.Step}
    (hsteps : state.steps migration = .ok steps)
    (h : migrator.perform state migration τ = .error e τ') :
    migration.FailsStepwise log migrator.backend (migration.withSteps steps) τ.database
      τ'.database e := by
  unfold perform at h
  rw [hsteps] at h
  rcases bind_eq_error.mp h with hreport | ⟨⟨⟩, τ₁, hreport, h⟩
  · cases hreport
  rw [← database_of_report hreport]
  rcases bind_eq_error.mp h with hanswer | ⟨steps', τ₂, hanswer, h⟩
  · cases hanswer
  obtain ⟨hsame, rfl⟩ := Run.ofExcept_eq_ok.mp hanswer
  cases hsame
  rw [if_neg (by rw [hdry]; simp), if_neg (by rw [hstepwise]; simp)] at h
  rcases bind_eq_error.mp h with hfails | ⟨⟨⟩, τ₃, -, h⟩
  · exact failsStepwise_of_applyStepwise hlogs hfails
  · -- the steps lead to a next state, and nothing is left but a message
    obtain ⟨next, hnext⟩ := next_of_steps happ hsteps
    rw [hnext] at h
    cases h

end Stepwise

/-! ### The migration that fails -/

/-- A missing dependency is not an error of an operation. -/
theorem not_during_of_requireApplied (hdry : migrator.dryRun = false) {applied : List String}
    (herror : migrator.requireApplied migration applied τ = .error e τ') :
    e ≠ .during app name cause := by
  rintro rfl
  rcases requireApplied_eq_error hdry herror with hnone | ⟨app, name, hmissing⟩
  · cases hnone
  · cases hmissing

section Apply

variable {ordered rest : List Migration} {recorded done : List String}

/-- An error in the context of a migration that is not recorded is that of carrying it out. All
before it that were not recorded have got their rows by then. -/
theorem perform_of_applyAll_error (h : migrator.backend.Reliable effect view)
    (hguards : migrator.backend.GuardsLedger view) (hdry : migrator.dryRun = false)
    (hahead : Ahead app ordered state rest) (hclosed : (view τ.database).saved = none)
    (hpending : recorded.contains name = false)
    (hrun : migrator.applyAll recorded state done rest τ = .error (.during app name cause) τ') :
    ∃ earlier migration later state' τ₁, rest = earlier ++ migration :: later ∧
      migration.name = name ∧ Ahead app ordered state' (migration :: later) ∧
      (view τ₁.database).saved = none ∧
      Ledger.Adds (earlier.filter fun migration => !recorded.contains migration.name)
        (view τ.database).ledger (view τ₁.database).ledger ∧
      migrator.perform state' migration τ₁ = .error cause τ' := by
  induction rest generalizing state done τ with
  | nil => cases hrun
  | cons first rest ih =>
      cases appliesFirst_of_error hrun with
      | skipped hrecorded hnext hsame hrest =>
          rw [← hsame] at hclosed ⊢
          obtain ⟨earlier, migration, later, state', τ₂, rfl, hname, hthere, hclosed',
            hadds, hfails⟩ :=
            ih (hahead.tail hnext) hclosed hrest
          refine ⟨first :: earlier, migration, later, state', τ₂, rfl, hname, hthere, hclosed', ?_,
            hfails⟩
          rwa [List.filter_cons_of_neg (by rw [hrecorded]; simp)]
      | refused hrecorded hnext _ =>
          -- a migration that is recorded cannot be to blame
          rw [next_error hnext name rfl, hrecorded] at hpending
          cases hpending
      | missing _ hrequired => exact absurd rfl (not_during_of_requireApplied hdry hrequired)
      | failed _ hrequired hfails =>
          have hsame := (looks_requireApplied h.unmoved _).ok _ _ _ hrequired
          rw [← hsame] at hclosed ⊢
          exact ⟨[], first, rest, state, _, rfl, rfl, hahead, hclosed, .nil, hfails⟩
      | @applied next τ₁ τ₂ _ _ hrecorded hrequired hperform hrest =>
          have happ : first.app = app := hahead.app_eq _ (hahead.mem List.mem_cons_self)
          rw [← (looks_requireApplied h.unmoved _).ok _ _ _ hrequired] at hclosed ⊢
          obtain ⟨hclosed', hgains⟩ :=
            turns_perform h hguards hdry hclosed (happ.trans hahead.state_app_eq.symm)
              (show _ = Backend.answered (.ok next) τ₂ from hperform)
          obtain ⟨earlier, migration, later, state', τ₃, rfl, hname, hthere, hclosed'', hadds,
            hfails⟩ := ih (hahead.tail (next_of_perform hperform)) hclosed' hrest
          refine ⟨first :: earlier, migration, later, state', τ₃, rfl, hname, hthere, hclosed'', ?_,
            hfails⟩
          rw [List.filter_cons_of_pos (by simpa using hrecorded)]
          exact .cons hgains hadds

/-- Where changes to tables are no part of a transaction, a call of applying that fails at a
migration whose steps can be taken has left no row for it. All pending migrations before it have got
theirs. Of the migration itself, the operations that were complete have been undone, the last one
first, as far as no statement of that was refused. Only if the row itself was refused is nothing
undone. -/
theorem stepwise_failure_undone {backend : Backend σ} (h : backend.Reliable effect view)
    (hlogs : backend.Logs log) (hkeeps : backend.KeepsLedger view)
    (hstepwise : backend.dialect.capabilities.transactional = false)
    {migrations before after : List Migration}
    (horder : Migration.InOrder app migrations (before ++ migration :: after))
    (hclosed : (view τ.database).saved = none)
    (hpending : ¬Ledger.Has (view τ.database).ledger app migration.name)
    (hreplay : AppSchema.replay app before = .ok state) {steps : List AppSchema.Step}
    (hsteps : state.steps migration = .ok steps) {target : Option String}
    (hrun : Migrator.apply { backend } app migrations target τ
      = .error (.during app migration.name cause) τ') :
    ¬Ledger.Has (view τ'.database).ledger app migration.name ∧
      ∃ s, Ledger.Adds (before.filter fun earlier =>
          !(view τ.database).ledger.any (·.isFor app earlier.name))
          (view τ.database).ledger (view s).ledger ∧
        migration.FailsStepwise log backend (migration.withSteps steps) s τ'.database cause := by
  rcases apply_eq { backend } horder with heq | ⟨number, heq⟩
  swap
  · rw [heq] at hrun
    exact nomatch (throw_eq_error.mp hrun).1
  rw [heq] at hrun
  rcases bind_eq_error.mp hrun with hentries | ⟨records, τ₁, hentries, hrun⟩
  · exact nomatch entries_error rfl hentries
  obtain ⟨rfl, hsame⟩ := entries_ok h rfl hentries
  rcases bind_eq_error.mp hrun with hfails | ⟨applied, τ₂, -, hend⟩
  swap
  · dsimp only at hend
    split at hend <;> cases hend
  rw [← hsame] at hclosed hpending ⊢
  have hpending' : (((view τ₁.database).ledger.filter (·.app == app)).map (·.name)).contains
      migration.name = false := by
    rw [Ledger.contains_name_eq]
    exact Bool.eq_false_iff.mpr hpending
  rw [hsame] at hpending'
  obtain ⟨earlier, found, later, state', τ₂, hsplit, hname, hahead, hclosed', hadds, hperform⟩ :=
    perform_of_applyAll_error h (.inr hkeeps) rfl
      (.of_inOrder horder List.takeWhile_append_dropWhile.symm) hclosed hpending' hfails
  -- the failing migration is the one with that name, so the ones before it are known
  have hwhole := List.takeWhile_append_dropWhile (p := isWithin (target.map numberOfTarget))
    (l := before ++ migration :: after)
  rw [hsplit, List.append_assoc, List.cons_append] at hwhole
  have hfound : found ∈ before ++ migration :: after := by
    rw [← hwhole]
    exact List.mem_append_right _ List.mem_cons_self
  obtain rfl := Migration.eq_of_name_eq horder.ascending hfound (by simp) hname
  obtain rfl := Migration.eq_of_split horder.nodup rfl hwhole.symm
  obtain ⟨first, rest, hplace, hreplay'⟩ := hahead.place
  obtain rfl := Migration.eq_of_split horder.nodup rfl hplace
  obtain rfl := Except.ok.inj (hreplay.symm.trans hreplay')
  have happ : found.app = app := horder.app_of_mem (by simp)
  have happ' : found.app = state.app := happ.trans hahead.state_app_eq.symm
  have hunturned : (view τ'.database).ledger = (view τ₂.database).ledger :=
    (turns_perform h (.inr hkeeps) rfl hclosed' happ'
      (show _ = Backend.answered (.error cause) τ' from hperform)).2
  simp only [← hsame, Ledger.contains_name_eq] at hadds
  refine ⟨?_, τ₂.database, hadds,
    failsStepwise_of_perform hlogs rfl hstepwise happ' hsteps hperform⟩
  rw [hunturned, Ledger.has_of_adds hadds]
  rintro (hrecorded | ⟨other, hother, -, hsameName⟩)
  · exact hpending hrecorded
  · have hlt := (List.pairwise_append.mp horder.ascending).2.2 other
      (List.mem_of_mem_filter hother) found List.mem_cons_self
    exact absurd hsameName (ne_of_lt hlt)

end Apply

/-! ### Notes with a rank, without transactions -/

/-- The notes get their rank in the migration that creates them. -/
def rankedNotes : Migration :=
  { Operation.noteMigration with
    operations := Operation.noteMigration.operations ++ [Operation.rankAdded] }

def fillsRows : Statement → Bool
  | .update .. => true
  | _ => false

def addsRows : Statement → Bool
  | .insert .. => true
  | _ => false

/-- A database that writes down what it is asked to do, with a log and without transactions. It
refuses some statements. -/
def refuser (refuses : Statement → Bool) : Backend (Store (List Statement) × List Event) :=
  (Store.backend (.generic "custom" ⟨true, true, false⟩) Operation.noteMoment writeDown
    fun _ statement? => statement?.any refuses).logging

theorem reliable_refuser (refuses : Statement → Bool) :
    (refuser refuses).Reliable writeDown fun s => s.1.view :=
  (Store.reliable _ _ _ _).logging

theorem keepsLedger_refuser (refuses : Statement → Bool) :
    (refuser refuses).KeepsLedger fun s : Store (List Statement) × List Event => s.1.view :=
  (Store.keepsLedger _ _ _ _).logging

def emptyDesk : Transcript (Store (List Statement) × List Event) :=
  ⟨(⟨⟨[], [], none, 0⟩, 0⟩, []), #[]⟩

theorem inOrder_rankedNotes : Migration.InOrder "notes" [rankedNotes] [rankedNotes] where
  perm := .refl _
  ascending := by decide
  app_eq := by decide
  numbered := by simp [Migration.Numbered]; decide

def rankedSteps : List AppSchema.Step :=
  match AppSchema.steps { app := "notes" } rankedNotes with
  | .ok steps => steps
  | .error _ => []

/-- The rank cannot be filled, so the table of the notes is dropped again. -/
theorem notes_dropped_again : ∃ cause τ s,
    Migrator.apply { backend := refuser fillsRows } "notes" [rankedNotes] none emptyDesk
        = .error (.during "notes" "0001_initial" cause) τ ∧
      τ.database.2.getLast? = some ⟨.execute (.dropTable "note"), true⟩ ∧
      ¬Ledger.Has τ.database.1.view.ledger "notes" "0001_initial" ∧
      rankedNotes.FailsStepwise Prod.snd (refuser fillsRows) (rankedNotes.withSteps rankedSteps) s
        τ.database cause := by
  have hrun : ∃ cause τ,
      Migrator.apply { backend := refuser fillsRows } "notes" [rankedNotes] none emptyDesk
          = .error (.during "notes" "0001_initial" cause) τ ∧
        τ.database.2.getLast? = some ⟨.execute (.dropTable "note"), true⟩ := by
    unfold Migrator.apply
    rw [inOrder_rankedNotes.sorted_eq]
    exact ⟨_, _, rfl, rfl⟩
  obtain ⟨cause, τ, hrun, hlast⟩ := hrun
  have horder : Migration.InOrder "notes" [rankedNotes] ([] ++ rankedNotes :: []) :=
    inOrder_rankedNotes
  have hsteps : AppSchema.steps { app := "notes" } rankedNotes = .ok rankedSteps := rfl
  obtain ⟨hnone, s, -, hfails⟩ := stepwise_failure_undone (reliable_refuser _)
    (Backend.logging_logs _) (keepsLedger_refuser _) rfl horder rfl Ledger.not_has_nil rfl hsteps
    hrun
  exact ⟨cause, τ, s, hrun, hlast, hnone, hfails⟩

/-- The row of the notes is refused. Both operations are complete by then, so there is something to
undo, but nothing follows. -/
theorem notes_left_behind : ∃ cause τ,
    Migrator.apply { backend := refuser addsRows } "notes" [rankedNotes] none emptyDesk
        = .error (.during "notes" "0001_initial" cause) τ ∧
      τ.database.2 = ⟨.query (Ledger.query "notes"), true⟩ ::
        carriedOut (Migration.attempt (.generic "custom" ⟨true, true, false⟩) Operation.noteMoment
          fun recorder => Migration.forwardAll recorder (rankedNotes.withSteps rankedSteps)).1
        ++ [⟨.execute (recordingOf Operation.noteMoment rankedNotes), false⟩] ∧
      (Migration.attempt (.generic "custom" ⟨true, true, false⟩) Operation.noteMoment
        fun recorder => Migration.backwardAll recorder (rankedNotes.withSteps rankedSteps)).1
          = [.dropColumn "note" "rank", .dropTable "note"] := by
  unfold Migrator.apply
  rw [inOrder_rankedNotes.sorted_eq]
  exact ⟨_, _, rfl, rfl, rfl⟩

end Migrator

end SchemaHistory
