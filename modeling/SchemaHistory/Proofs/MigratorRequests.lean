import SchemaHistory.Proofs.Requests

/-!
# What the migrator asks for

The parts of a call, with a log: all that they ask for is of a kind, and if nothing is refused they
do what can be told beforehand. Reading the ledger gives its rows, a migration that is applied or
undone is one transaction of its statements and a change to the ledger, and a dry run prints the
statements and changes nothing.
-/

namespace SchemaHistory

variable {σ κ : Type} {log : σ → List Event} {P : Request → Prop}
  {effect : Statement → κ → Option κ} {view : σ → View κ} {s t : σ}

/-! ### Scripts to which nothing is refused -/

section Script

variable {backend : Backend σ} {script : List Statement}

/-- A script that runs is logged statement by statement. -/
theorem Backend.Logs.of_runs (hlogs : backend.Logs log) (hruns : backend.Runs script s t) :
    log t = log s ++ script.map fun statement => ⟨.execute statement, true⟩ := by
  induction hruns with
  | nil => simp
  | cons count hexecute _ ih =>
      rw [ih, (hlogs.execute _).ok _ _ _ hexecute]
      simp

/-- Of one that stops the log has the statements before the refused one, and that one as refused. -/
theorem Backend.Logs.of_stops (hlogs : backend.Logs log) {e : SchemaError}
    (hstops : backend.Stops script s e t) :
    ∃ done failed, log t = log s
      ++ ((done : List Statement).map fun statement => ⟨.execute statement, true⟩)
      ++ [⟨.execute failed, false⟩] := by
  induction hstops with
  | @here failed rest s t e hexecute =>
      exact ⟨[], failed, by simpa using (hlogs.execute _).error _ _ _ hexecute⟩
  | @later statement rest s t u e count hexecute _ ih =>
      obtain ⟨done, failed, ih⟩ := ih
      refine ⟨statement :: done, failed, ?_⟩
      rw [ih, (hlogs.execute _).ok _ _ _ hexecute]
      simp

/-- A script makes no requests other than its statements. -/
theorem asks_of_scripted (hlogs : backend.Logs log) (hP : ∀ statement, P (.execute statement))
    {work : ∀ σ, Backend σ → Work σ Unit}
    (hwork : Scripted backend.dialect backend.now MigrationError.schema work) :
    Asks log P (work σ backend) := by
  have hruns : ∀ {script : List Statement} {s t : σ}, backend.Runs script s t →
      Continues log P s t :=
    fun hruns => ⟨_, hlogs.of_runs hruns, by simpa using fun statement _ => hP statement⟩
  have hstops : ∀ {script : List Statement} {s t : σ} {e : SchemaError},
      backend.Stops script s e t → Continues log P s t := by
    intro script s t e hstops
    obtain ⟨done, failed, heq⟩ := hlogs.of_stops hstops
    refine ⟨_, heq.trans (List.append_assoc ..), fun event hevent => ?_⟩
    rcases List.mem_append.mp hevent with hevent | hevent
    · obtain ⟨statement, -, rfl⟩ := List.mem_map.mp hevent
      exact hP statement
    · rw [List.mem_singleton.mp hevent]
      exact hP failed
  constructor
  · intro s a t hok
    obtain ⟨script, -, hrun, -⟩ := hwork.of_ok hok
    exact hruns hrun
  · intro s e t herror
    obtain ⟨script, -, hrun | ⟨e', hstop⟩⟩ := hwork.of_error herror
    · exact hruns hrun
    · exact hstops hstop

/-- An action that plays a script has carried it out and has its answer, if nothing is refused. -/
theorem granting_of_plays {ε α : Type} (hlogs : backend.Logs log) {wrap : SchemaError → ε}
    {answer : Except ε α} {action : EStateM ε σ α}
    (hplays : backend.Plays wrap script answer action) (s : σ) :
    Granting log action s fun answer' requests t =>
      answer' = answer ∧ requests = script.map .execute ∧ backend.Runs script s t := by
  intro answer' t hanswer hgranted
  rcases hplays s with ⟨u, hruns, heq⟩ | ⟨e, u, hstops, heq⟩
  · have hsame : Backend.answered answer u = Backend.answered answer' t := heq.symm.trans hanswer
    obtain ⟨rfl, rfl⟩ : answer' = answer ∧ t = u := by
      cases answer <;> cases answer' <;> cases hsame <;> exact ⟨rfl, rfl⟩
    refine ⟨rfl, ?_, hruns⟩
    rw [changesBetween, eventsBetween_eq (hlogs.of_runs hruns), List.map_map,
      List.filter_eq_self.mpr]
    · rfl
    · simp [Request.isQuery]
  · -- the log shows where the script was stopped
    obtain ⟨done, failed, hlog⟩ := hlogs.of_stops hstops
    obtain rfl : t = u := by
      have hsame : EStateM.Result.error (wrap e) u = Backend.answered answer' t :=
        heq.symm.trans hanswer
      cases answer' <;> cases hsame
      rfl
    rw [List.append_assoc] at hlog
    rw [Granted, eventsBetween_eq hlog] at hgranted
    exact absurd (hgranted ⟨.execute failed, false⟩ (by simp)) Bool.false_ne_true

/-- Scripted work to which nothing is refused has the answer that the recorder gets. It has carried
out what is recorded or, where nothing is for a failure, some statements before that. -/
theorem granting_of_scripted (hlogs : backend.Logs log) {work : ∀ σ, Backend σ → Work σ Unit}
    (hwork : Scripted backend.dialect backend.now MigrationError.schema work) :
    ∃ script answer, (∀ statement ∈ script, statement.IsChange) ∧
      Migration.recording backend.dialect backend.now (work Journal)
        = (answer : Except MigrationError Unit).map (fun _ => script) ∧
      ∀ s, Granting log (work σ backend) s fun answer' requests t =>
        answer' = answer ∧ requests = script.map .execute ∧ backend.Runs script s t := by
  obtain ⟨script, answer, hchange, hplays⟩ := hwork
  refine ⟨script, answer, hchange, ?_, granting_of_plays hlogs (hplays σ backend)⟩
  obtain ⟨journal, heq, hstatements⟩ :=
    Migration.exists_played (hplays Journal (Journal.backend backend.dialect backend.now))
  unfold Migration.recording
  rw [show work Journal (Journal.backend backend.dialect backend.now) {} = _ from heq]
  cases answer with
  | ok a => exact congrArg Except.ok hstatements
  | error e => rfl

end Script

/-! ### Work that may fail -/

section Attempt

variable {α : Type} {work : Work σ α}

/-- Some work to its end, whether it fails or not. -/
def Work.attempt (work : Work σ α) : Work σ (Except MigrationError α) := fun database =>
  match work database with
  | .ok a database => .ok (.ok a) database
  | .error e database => .ok (.error e) database

theorem Work.attempt_eq_answered {answer : Except MigrationError (Except MigrationError α)} :
    Work.attempt work s = Backend.answered answer t ↔
      ∃ result, answer = .ok result ∧ work s = Backend.answered result t := by
  unfold Work.attempt
  constructor
  · intro h
    cases hwork : work s with
    | ok a u =>
        rw [hwork] at h
        cases answer <;> cases h
        exact ⟨.ok a, rfl, rfl⟩
    | error e u =>
        rw [hwork] at h
        cases answer <;> cases h
        exact ⟨.error e, rfl, rfl⟩
  · intro h
    obtain ⟨result, rfl, hwork⟩ := h
    rw [hwork]
    cases result <;> rfl

theorem Work.asks_attempt (h : Asks log P work) : Asks log P (Work.attempt work) where
  ok s answer t hok := by
    obtain ⟨result, -, hwork⟩ := attempt_eq_answered.mp
      (show Work.attempt work s = Backend.answered (.ok answer) t from hok)
    cases result with
    | ok a => exact h.ok _ _ _ hwork
    | error e => exact h.error _ _ _ hwork
  error s e t herror := by
    obtain ⟨result, heq, -⟩ := attempt_eq_answered.mp
      (show Work.attempt work s = Backend.answered (.error e) t from herror)
    cases heq

/-- Attempting an action makes an answer of its error. -/
theorem Work.granting_attempt
    {post : Except MigrationError (Except MigrationError α) → List Request → σ → Prop}
    (h : Granting log work s fun answer => post (.ok answer)) :
    Granting log (Work.attempt work) s post := by
  intro answer t hattempt hgranted
  obtain ⟨result, rfl, hwork⟩ := attempt_eq_answered.mp hattempt
  exact h result t hwork hgranted

/-- Carrying operations out until one fails, step by step. -/
theorem Migration.forwardCompleted_cons (backend : Backend σ) (operation : Operation)
    (step : AppSchema.Step) (rest : Migration.Steps) :
    Migration.forwardCompleted backend ((operation, step) :: rest) = (do
      match ← Work.attempt (operation.forward backend step) with
      | .ok () =>
        let found ← Migration.forwardCompleted backend rest
        return ((operation, step) :: found.1, found.2)
      | .error e => return ([], some e)) := by
  funext s
  rw [Migration.forwardCompleted]
  show _ = EStateM.bind (Work.attempt _) _ s
  unfold EStateM.bind Work.attempt
  dsimp only
  cases operation.forward backend step s with
  | error e t => rfl
  | ok a t =>
      show _ = EStateM.bind (Migration.forwardCompleted backend rest) _ t
      unfold EStateM.bind
      dsimp only
      cases Migration.forwardCompleted backend rest t <;> rfl

end Attempt

/-- The row of a migration is added. -/
def Ledger.Gains (migration : Migration) (before after : List LedgerEntry) : Prop :=
  ∃ entry, Records migration.app migration.name migration.number entry ∧ after = before ++ [entry]

/-- The rows of a migration are removed. -/
def Ledger.Loses (app name : String) (before after : List LedgerEntry) : Prop :=
  after = before.filter fun entry => !entry.isFor app name

namespace Migrator

variable {migrator : Migrator σ} {τ : Transcript σ} {state : AppSchema} {migration : Migration}
  {app : String}

/-! ### What the parts of a call ask for -/

/-- Where the ledger cannot be read, a dry run takes it for empty. -/
theorem asks_recovery (migrator : Migrator σ) (answer : Except MigrationError (List LedgerEntry)) :
    Asks (Run.logOf log) P (match answer with
      | .ok records => return records
      | .error (.ledger cause) => if migrator.dryRun then return [] else throw (.ledger cause)
      | .error e => throw e : Run σ (List LedgerEntry)) := by
  split
  · exact .pure _
  · split
    · exact .pure _
    · exact .throw _
  · exact .throw _

section Asks

variable (hlogs : migrator.backend.Logs log)

include hlogs

section Looking

variable (hquery : ∀ app, P (.query (Ledger.query app)))

include hquery

theorem asks_ledgerEntries (app : String) : Asks log P (Ledger.entries migrator.backend app) := by
  have hselect : Asks log P (migrator.backend.select Ledger.model (Ledger.isText "app" app)) := by
    rw [Ledger.select_eq]
    exact (Asks.of_isLogged (hlogs.query _) (hquery app)).bind fun _ => .pure _
  exact hselect.adapt.bind fun _ => .pure _

theorem asks_entries (app : String) : Asks (Run.logOf log) P (migrator.entries app) :=
  (Run.asks_attempt (Run.asks_onDatabase (asks_ledgerEntries hlogs hquery app))).bind
    (asks_recovery migrator)

theorem asks_requirement (done : List String) (needed : String × String) :
    Asks (Run.logOf log) P (do
      if needed.1 == migration.app && done.contains needed.2 then return
      if !(← migrator.hasApplied needed.1 needed.2) then
        throw (.missingDependency migration.app migration.name needed.1 needed.2)) := by
  split
  · exact .pure ()
  · refine ((asks_entries hlogs hquery _).bind fun _ => .pure _).bind fun found => ?_
    split
    · exact .throw _
    · exact .pure ()

/-- The check of dependencies asks queries only. -/
theorem asks_requireApplied (done : List String) :
    Asks (Run.logOf log) P (migrator.requireApplied migration done) :=
  .forM (asks_requirement hlogs hquery done)

end Looking

section Changing

variable (hP : ∀ request, P request)

include hP

theorem asks_abort : Asks (Run.logOf log) P migrator.abort := by
  refine (Run.asks_attempt (Run.asks_onDatabase
    (Asks.of_isLogged hlogs.rollback (hP _)).adapt)).bind fun answer => ?_
  split
  · exact .pure _
  · exact Run.asks_emit _

/-- The work is kept or taken back. -/
theorem asks_ending (answer : Except MigrationError Unit) : Asks (Run.logOf log) P
    (match answer with
      | .ok () => Run.onDatabase migrator.backend.commit.toWork
      | .error e => do
        migrator.abort
        throw e : Run σ Unit) := by
  split
  · exact Run.asks_onDatabase (Asks.of_isLogged hlogs.commit (hP _)).adapt
  · exact (asks_abort hlogs hP).bind fun _ => .throw _

/-- A transaction asks for its begin and its end and for what its work asks for. -/
theorem asks_inTransaction {work : Work σ Unit}
    (hwork : Asks log P work) : Asks (Run.logOf log) P (migrator.inTransaction work) := by
  refine (Run.asks_onDatabase (Asks.of_isLogged hlogs.begin (hP _)).adapt).bind fun _ => ?_
  exact (Run.asks_attempt (Run.asks_onDatabase hwork)).bind (asks_ending hlogs hP)

theorem asks_record : Asks log P (migrator.record migration) :=
  ((Asks.of_isLogged (hlogs.execute _) (hP _)).bind fun _ => .pure _).adapt

theorem asks_strike (name : String) :
    Asks log P (Ledger.strike migrator.backend app name) := by
  have hdelete : Asks log P (migrator.backend.delete Ledger.model
      ((Ledger.isText "app" app).both (Ledger.isText "name" name))) := by
    rw [Ledger.delete_eq]
    exact .of_isLogged (hlogs.execute _) (hP _)
  refine hdelete.adapt.bind fun removed => ?_
  split
  · exact .throw _
  · exact .pure _

theorem asks_apply (steps : Migration.Steps) : Asks log P (do
    Migration.forwardAll migrator.backend steps
    migrator.record migration) :=
  (asks_of_scripted hlogs (fun _ => hP _) (.forwardAll steps)).bind fun _ => asks_record hlogs hP

theorem asks_revertWork (steps : Migration.Steps) : Asks log P (do
    Migration.backwardAll migrator.backend steps
    Ledger.strike migrator.backend migration.app migration.name) :=
  (asks_of_scripted hlogs (fun _ => hP _) (.backwardAll steps)).bind fun _ =>
    asks_strike hlogs hP _

/-- Carrying operations out until one fails. -/
theorem asks_forwardCompleted (steps : Migration.Steps) :
    Asks log P (Migration.forwardCompleted migrator.backend steps) := by
  induction steps with
  | nil => exact .pure ([], none)
  | cons entry rest ih =>
      obtain ⟨operation, step⟩ := entry
      rw [Migration.forwardCompleted_cons]
      have hforward := asks_of_scripted hlogs (fun _ => hP _) (.forward operation step)
      refine (Work.asks_attempt hforward).bind fun answer => ?_
      cases answer with
      | ok a => exact ih.bind fun _ => .pure _
      | error e => exact .pure _

theorem asks_undoCompleted (completed : Migration.Steps) :
    Asks (Run.logOf log) P (migrator.undoCompleted migration completed) := by
  refine (Run.asks_emit _).bind fun _ => (Run.asks_attempt (Run.asks_onDatabase
    (asks_of_scripted hlogs (fun _ => hP _) (.backwardAll completed)))).bind fun answer => ?_
  split
  · exact .pure _
  · exact Run.asks_emit _

theorem asks_applyStepwise (steps : Migration.Steps) :
    Asks (Run.logOf log) P (migrator.applyStepwise migration steps) := by
  refine (Run.asks_onDatabase (asks_forwardCompleted hlogs hP steps)).bind fun found => ?_
  obtain ⟨completed, failure⟩ := found
  cases failure with
  | some e => exact (asks_undoCompleted hlogs hP completed).bind fun _ => .throw e
  | none => exact Run.asks_onDatabase (asks_record hlogs hP)

end Changing

end Asks

section Calls

variable (hlogs : migrator.backend.Logs log)
  (hquery : ∀ app, P (.query (Ledger.query app)))
  (hreal : migrator.dryRun = false → ∀ request, P request)

theorem asks_emitStatements (work : Backend Journal → Work Journal Unit) :
    Asks (Run.logOf log) P (migrator.emitStatements work) :=
  (Run.asks_ofExcept _).bind fun _ => (Run.asks_ofExcept _).bind fun _ =>
    .forM fun _ => Run.asks_emit _

/-- Taking the state on to the next one asks for nothing. -/
theorem asks_next (state : AppSchema) (migration : Migration) :
    Asks (Run.logOf log) P (do
      let state ← Run.ofExcept (state.next migration)
      Run.report .info "Migration applied successfully" migration []
      return state : Run σ AppSchema) :=
  (Run.asks_ofExcept _).bind fun _ => (Run.asks_emit _).bind fun _ => .pure _

include hlogs hreal

/-- Carrying out a migration makes requests that are expected. -/
theorem asks_perform : Asks (Run.logOf log) P (migrator.perform state migration) := by
  unfold perform
  refine (Run.asks_emit _).bind fun _ => (Run.asks_ofExcept _).bind fun steps => ?_
  dsimp only
  by_cases hdry : migrator.dryRun = true
  · rw [if_pos hdry]
    exact (asks_emitStatements _).bind fun _ => asks_next state migration
  · rw [if_neg hdry]
    have hP := hreal (Bool.eq_false_iff.mpr hdry)
    split
    · exact (asks_inTransaction hlogs hP (asks_apply hlogs hP _)).bind fun _ =>
        asks_next state migration
    · exact (asks_applyStepwise hlogs hP _).bind fun _ => asks_next state migration

theorem asks_revert {steps : Migration.Steps} :
    Asks (Run.logOf log) P (migrator.revert migration steps) := by
  unfold revert
  refine (Run.asks_emit _).bind fun _ => ?_
  dsimp only
  by_cases hdry : migrator.dryRun = true
  · rw [if_pos hdry]
    exact (asks_emitStatements _).bind fun _ => Run.asks_emit _
  · rw [if_neg hdry]
    have hP := hreal (Bool.eq_false_iff.mpr hdry)
    split
    · exact (asks_inTransaction hlogs hP (asks_revertWork hlogs hP _)).bind fun _ => Run.asks_emit _
    · exact (Run.asks_onDatabase (asks_revertWork hlogs hP _)).bind fun _ => Run.asks_emit _

theorem asks_revertAll (undo : List (Migration × Migration.Steps)) :
    Asks (Run.logOf log) P (migrator.revertAll undo) := by
  induction undo with
  | nil => exact .pure ()
  | cons entry rest ih => exact (asks_revert hlogs hreal).adapt.bind fun _ => ih

include hquery

theorem asks_applyAll {recorded done : List String} (rest : List Migration) :
    Asks (Run.logOf log) P (migrator.applyAll recorded state done rest) := by
  induction rest generalizing state done with
  | nil => exact .pure done
  | cons migration rest ih =>
      unfold applyAll
      split
      · exact (Run.asks_emit _).bind fun _ => (Run.asks_ofExcept _).bind fun _ => ih
      · refine (asks_requireApplied hlogs hquery done).bind fun _ => ?_
        exact (asks_perform hlogs hreal).adapt.bind fun _ => ih

/-- A whole call of applying makes no others. -/
theorem asks_applyCall (migrations : List Migration) (target : Option String) :
    Asks (Run.logOf log) P (migrator.apply app migrations target) := by
  have hrest (sorted : List Migration) :
      Asks (Run.logOf log) P (migrator.applyWithin app target sorted) := by
    refine (asks_entries hlogs hquery app).bind fun records => ?_
    refine (asks_applyAll hlogs hquery hreal _).bind fun applied => ?_
    split
    · exact (Run.asks_emit _).bind fun _ => .pure applied
    · exact .pure applied
  refine (Run.asks_ofExcept _).bind fun sorted => ?_
  have hsorted := hrest sorted
  unfold applyWithin at hsorted
  generalize target.map numberOfTarget = number? at hsorted ⊢
  cases number? with
  | none => exact hsorted
  | some number =>
      dsimp only
      split
      · exact (Asks.throw _).bind fun _ => hsorted
      · exact hsorted

theorem asks_rollbackCall (migrations : List Migration) (target : String) :
    Asks (Run.logOf log) P (migrator.rollback app migrations target) := by
  have hrest (recorded : List Migration) :
      Asks (Run.logOf log) P (migrator.rollbackWithin app target recorded) := by
    refine (Run.asks_ofExcept _).bind fun undo => ?_
    split
    · exact (Run.asks_emit _).bind fun _ => .pure []
    · exact (asks_revertAll hlogs hreal _).bind fun _ => .pure _
  refine (Run.asks_ofExcept _).bind fun sorted => (asks_entries hlogs hquery app).bind
    fun records => ?_
  dsimp only
  split
  · exact (Asks.throw _).bind fun _ => hrest _
  · exact hrest _

end Calls

/-! ### Reading the ledger -/

/-- A run that was to give an answer has given it. It has asked for nothing but rows, and it has
written nothing. -/
structure Looked {α : Type} (view : σ → View κ) (τ : Transcript σ)
    (expected answer : Except MigrationError α) (requests : List Request) (τ' : Transcript σ) :
    Prop where
  answer : answer = expected
  requests : requests = []
  lines : τ'.lines = τ.lines
  view : view τ'.database = view τ.database

/-- An action that only looks, and then another: the requests of the second are those of both. -/
theorem Looked.bind {α β : Type} {run : Run σ α} {next : α → Run σ β}
    {expected : Except MigrationError α}
    {post : Except MigrationError β → List Request → Transcript σ → Prop}
    (h : Granting (Run.logOf log) run τ (Looked view τ expected))
    (hasks : Asks (Run.logOf log) (fun _ => True) run)
    (hnext : ∀ a, Asks (Run.logOf log) (fun _ => True) (next a))
    (hok : ∀ a τ', expected = .ok a → τ'.lines = τ.lines →
      view τ'.database = view τ.database → Granting (Run.logOf log) (next a) τ' post)
    (herror : ∀ e τ', expected = .error e → τ'.lines = τ.lines →
      view τ'.database = view τ.database → post (.error e) [] τ') :
    Granting (Run.logOf log) (run >>= next) τ post := by
  refine Granting.bind hasks hnext (h.mono ?_)
  rintro answer requests τ' ⟨rfl, rfl, hlines, hview⟩
  cases answer with
  | ok a => exact hok a τ' rfl hlines hview
  | error e => exact herror e τ' rfl hlines hview

/-- Whether something that a migration depends on is recorded, or is in `done` and of its app. -/
def isMet (ledger : List LedgerEntry) (done : List String) (migration : Migration)
    (needed : String × String) : Bool :=
  needed.1 == migration.app && done.contains needed.2 || ledger.any (·.isFor needed.1 needed.2)

/-- Fails at the first thing that a migration depends on and that is not there. -/
def requirement (ledger : List LedgerEntry) (done : List String) (migration : Migration) :
    Except MigrationError Unit :=
  match migration.dependencies.find? (!isMet ledger done migration ·) with
  | some needed => .error (.missingDependency migration.app migration.name needed.1 needed.2)
  | none => .ok ()

section Granting

variable (h : migrator.backend.Reliable effect view) (hlogs : migrator.backend.Logs log)

include h hlogs

/-- Where reading the ledger is granted, its entries of the app are the answer. -/
theorem granting_entries (app : String) : Granting (Run.logOf log) (migrator.entries app) τ
    (Looked view τ (.ok ((view τ.database).ledger.filter (·.app == app)))) := by
  have hselect : Granting log (migrator.backend.select Ledger.model (Ledger.isText "app" app))
      τ.database fun answer requests t => requests = [] ∧ view t = view τ.database ∧
        ∃ rows, answer = .ok rows ∧
          rows.map Ledger.ofRow = (view τ.database).ledger.filter (·.app == app) := by
    rw [Ledger.select_eq]
    refine Granting.bind (.any_of_isLogged (hlogs.query _)) (fun _ => .pure _) ?_
    refine .of_isLogged (hlogs.query _) fun rows t hquery => .pure ?_
    obtain ⟨hrows, hview⟩ := h.entries app _ rows t hquery
    refine ⟨rfl, hview, _, rfl, ?_⟩
    rw [← hrows, List.map_map]
    rfl
  have hledger : Granting log (Ledger.entries migrator.backend app) τ.database
      fun answer requests t => requests = [] ∧ view t = view τ.database ∧
        answer = .ok ((view τ.database).ledger.filter (·.app == app)) := by
    refine Granting.bind (Asks.adapt ?_) (fun _ => .pure _) (.adapt (hselect.mono ?_))
    · rw [Ledger.select_eq]
      exact (Asks.any_of_isLogged (hlogs.query _)).bind fun _ => .pure _
    · rintro answer requests t ⟨rfl, hview, rows, rfl, hrows⟩
      exact .pure ⟨rfl, hview, congrArg Except.ok hrows⟩
  have hasks : Asks log (fun _ => True) (Ledger.entries migrator.backend app) :=
    asks_ledgerEntries hlogs (fun _ => trivial) app
  refine Granting.bind (Run.asks_attempt (Run.asks_onDatabase hasks)) (asks_recovery migrator)
    (Run.granting_attempt (Run.granting_onDatabase (hledger.mono ?_)))
  rintro answer requests t ⟨rfl, hview, rfl⟩
  exact .pure ⟨rfl, rfl, rfl, hview⟩

theorem granting_requirement (done : List String) (needed : String × String) (τ : Transcript σ) :
    Granting (Run.logOf log) (do
      if needed.1 == migration.app && done.contains needed.2 then return
      if !(← migrator.hasApplied needed.1 needed.2) then
        throw (.missingDependency migration.app migration.name needed.1 needed.2)) τ
      (Looked view τ (if isMet (view τ.database).ledger done migration needed then .ok ()
        else .error (.missingDependency migration.app migration.name needed.1 needed.2))) := by
  unfold isMet
  cases hdone : needed.1 == migration.app && done.contains needed.2 with
  | true => exact .pure ⟨rfl, rfl, rfl, rfl⟩
  | false =>
      have hhas : Granting (Run.logOf log) (migrator.hasApplied needed.1 needed.2) τ
          (Looked view τ (.ok ((view τ.database).ledger.any (·.isFor needed.1 needed.2)))) := by
        refine Looked.bind (granting_entries h hlogs _) (asks_entries hlogs (fun _ => trivial) _)
          (fun _ => .pure _) ?_ nofun
        rintro records τ' ⟨⟩ hlines hview
        rw [← Ledger.any_name_eq]
        exact .pure ⟨rfl, rfl, hlines, hview⟩
      have hend (found : Bool) (τ' : Transcript σ) (hlines : τ'.lines = τ.lines)
          (hview : view τ'.database = view τ.database) : Granting (Run.logOf log) (do
            if !found then
              throw (.missingDependency migration.app migration.name needed.1 needed.2)) τ'
          (Looked view τ (if false || found then .ok ()
            else .error (.missingDependency migration.app migration.name needed.1 needed.2))) := by
        cases found with
        | true => exact .pure ⟨rfl, rfl, hlines, hview⟩
        | false => exact .throw ⟨rfl, rfl, hlines, hview⟩
      refine Looked.bind hhas ((asks_entries hlogs (fun _ => trivial) _).bind fun _ => .pure _)
        (fun found => ?_) ?_ nofun
      · split
        · exact .throw _
        · exact .pure _
      · rintro found τ' ⟨⟩ hlines hview
        exact hend _ τ' hlines hview

/-- Where it is granted, the check of dependencies is decided by the ledger in view. -/
theorem granting_requireApplied (done : List String) :
    Granting (Run.logOf log) (migrator.requireApplied migration done) τ
      (Looked view τ (requirement (view τ.database).ledger done migration)) := by
  unfold requireApplied requirement
  induction migration.dependencies generalizing τ with
  | nil => exact .pure ⟨rfl, rfl, rfl, rfl⟩
  | cons needed rest ih =>
      have hasks (needed : String × String) : Asks (Run.logOf log) (fun _ => True) (do
          if needed.1 == migration.app && done.contains needed.2 then return
          if !(← migrator.hasApplied needed.1 needed.2) then
            throw (.missingDependency migration.app migration.name needed.1 needed.2)) :=
        asks_requirement hlogs (fun _ => trivial) done needed
      refine Looked.bind (granting_requirement h hlogs done needed τ) (hasks needed)
        (fun _ => .forM hasks) ?_ ?_
      · intro _ τ' hmet hlines hview
        have hfound := ih (τ := τ')
        rw [hview] at hfound
        rw [List.find?_cons_of_neg]
        · refine hfound.mono ?_
          rintro answer requests τ'' ⟨hanswer, hrequests, hlines', hview'⟩
          exact ⟨hanswer, hrequests, hlines'.trans hlines, hview'.trans hview⟩
        · have hcond : isMet (view τ.database).ledger done migration needed = true :=
            Decidable.byContradiction fun hne => nomatch (if_neg hne).symm.trans hmet
          simp [hcond]
      · intro e τ' hmissing hlines hview
        have hcond : ¬isMet (view τ.database).ledger done migration needed = true :=
          fun hcond => nomatch (if_pos hcond).symm.trans hmissing
        rw [List.find?_cons_of_pos]
        · rw [if_neg hcond] at hmissing
          cases hmissing
          exact ⟨rfl, rfl, hlines, hview⟩
        · simpa using hcond

/-! ### One transaction -/

omit h in
theorem granting_abort : Granting (Run.logOf log) migrator.abort τ fun answer requests _ =>
    answer = .ok () ∧ requests = [.rollback] := by
  refine Granting.bind
    (Run.asks_attempt (Run.asks_onDatabase (Asks.any_of_isLogged hlogs.rollback).adapt)) ?_ ?_
  · rintro (e | a)
    · exact Run.asks_emit _
    · exact .pure _
  · refine Run.granting_attempt (Run.granting_onDatabase (.adapt ?_))
    exact .of_isLogged hlogs.rollback fun _ _ _ => .pure ⟨rfl, rfl⟩

/-- What is asked for when some work is done as one transaction. -/
def asTransaction (answer : Except MigrationError Unit) (requests : List Request) : List Request :=
  .begin :: requests ++ [match answer with
    | .ok _ => .commit
    | .error _ => .rollback]

/-- Work that is done as one transaction. -/
theorem granting_inTransaction {work : Work σ Unit} {post : Except MigrationError Unit →
      List Request → σ → Prop} (hclosed : (view τ.database).saved = none)
    (hasks : Asks log (fun _ => True) work)
    (hwork : ∀ s, view s = (view τ.database).opened → Granting log work s post)
    (hopen : ∀ requests t, post (.ok ()) requests t → (view t).saved.isSome) :
    Granting (Run.logOf log) (migrator.inTransaction work) τ fun answer requests τ' =>
      ∃ inner t, post answer inner t ∧ requests = asTransaction answer inner ∧
        (answer = .ok () → view τ'.database = (view t).kept) := by
  have hend := asks_ending (P := fun _ => True) hlogs fun _ => trivial
  refine Granting.bind (Run.asks_onDatabase (Asks.any_of_isLogged hlogs.begin).adapt)
    (fun _ => (Run.asks_attempt (Run.asks_onDatabase hasks)).bind hend) ?_
  refine Run.granting_onDatabase (.adapt (.of_isLogged hlogs.begin fun _ s hbegin => ?_))
  have hview := h.begin _ s hclosed hbegin
  refine Granting.bind (Run.asks_attempt (Run.asks_onDatabase hasks)) hend ?_
  refine Run.granting_attempt (Run.granting_onDatabase ((hwork s hview).mono ?_))
  intro answer inner t hpost
  cases answer with
  | ok a =>
      refine Run.granting_onDatabase (.adapt (.of_isLogged hlogs.commit fun _ u hcommit => ?_))
      exact ⟨inner, t, hpost, rfl, fun _ => h.commit t u (hopen inner t hpost) hcommit⟩
  | error e =>
      refine Granting.bind (asks_abort hlogs fun _ => trivial) (fun _ => .throw _)
        ((granting_abort hlogs).mono ?_)
      rintro _ _ τ' ⟨rfl, rfl⟩
      exact .throw ⟨inner, t, hpost, rfl, nofun⟩

/-- What is asked for to carry statements out together with a change to the ledger. -/
def transaction (script : List Statement) (closing : Statement) : List Request :=
  .begin :: script.map .execute ++ [.execute closing, .commit]

/-- What has been asked for is at most a transaction that was taken back. -/
def IsTakenBack (requests : List Request) : Prop :=
  requests = [] ∨ ∃ script : List Statement,
    requests = .begin :: script.map .execute ++ [.rollback]

/-- Scripted work and a change to the ledger, done as one transaction. -/
theorem granting_transaction (hclosed : (view τ.database).saved = none)
    {work : ∀ σ, Backend σ → Work σ Unit} {closing : Work σ Unit} {statement : Statement}
    {ledgerChange : List LedgerEntry → List LedgerEntry → Prop}
    (hwork : Scripted migrator.backend.dialect migrator.backend.now MigrationError.schema work)
    (hasks : Asks log (fun _ => True) closing)
    (hclosing : ∀ s, (view s).ledger = (view τ.database).ledger →
      Granting log closing s fun answer requests t => answer = .ok () ∧
        requests = [.execute statement] ∧ ∃ ledger, ledgerChange (view s).ledger ledger ∧
          view t = { view s with ledger }) :
    ∃ script answer, Migration.recording migrator.backend.dialect migrator.backend.now
        (work Journal) = (answer : Except MigrationError Unit).map (fun _ => script) ∧
      Granting (Run.logOf log)
        (migrator.inTransaction do
          work σ migrator.backend
          closing) τ
        fun answer' requests τ' => answer' = answer ∧ match answer with
          | .ok _ => requests = transaction script statement ∧
              (view τ'.database).saved = none ∧
              ledgerChange (view τ.database).ledger (view τ'.database).ledger
          | .error _ => IsTakenBack requests := by
  obtain ⟨script, answer, hchange, hrecording, hgranting⟩ := granting_of_scripted hlogs hwork
  refine ⟨script, answer, hrecording, ?_⟩
  -- the statements go to the contents and leave the ledger as it is
  let post (answer' : Except MigrationError Unit) (requests : List Request) (t : σ) : Prop :=
    answer' = answer ∧ match answer with
      | .ok _ => requests = script.map .execute ++ [.execute statement] ∧
          (view t).saved.isSome ∧ ledgerChange (view τ.database).ledger (view t).ledger
      | .error _ => requests = script.map .execute
  have hboth (s : σ) (hs : view s = (view τ.database).opened) : Granting log (do
      work σ migrator.backend
      closing) s post := by
    refine Granting.bind (asks_of_scripted hlogs (fun _ => trivial) hwork) (fun _ => hasks)
      ((hgranting s).mono ?_)
    rintro answer' requests t ⟨rfl, rfl, hruns⟩
    cases answer' with
    | error e => exact ⟨rfl, rfl⟩
    | ok a =>
        obtain ⟨contents, -, hview⟩ := h.view_of_runs hruns hchange
        rw [hs] at hview
        have hsame : (view t).ledger = (view τ.database).ledger := by
          rw [hview]
          rfl
        refine (hclosing t hsame).mono ?_
        rintro answer'' requests u ⟨rfl, rfl, ledger, hledger, hview'⟩
        refine ⟨rfl, rfl, ?_, ?_⟩
        · rw [hview', hview]
          rfl
        · rw [hview', ← hsame]
          exact hledger
  refine (granting_inTransaction h hlogs hclosed
    ((asks_of_scripted hlogs (fun _ => trivial) hwork).bind fun _ => hasks) hboth ?_).mono ?_
  · rintro requests t ⟨rfl, -, hopen, -⟩
    exact hopen
  · rintro answer' requests τ' ⟨inner, t, ⟨rfl, hinner⟩, rfl, hkept⟩
    refine ⟨rfl, ?_⟩
    cases answer' with
    | ok a =>
        obtain ⟨rfl, -, hledger⟩ := hinner
        rw [hkept rfl]
        refine ⟨?_, rfl, hledger⟩
        simp [asTransaction, transaction]
    | error e =>
        obtain rfl : inner = script.map .execute := hinner
        exact Or.inr ⟨script, rfl⟩

/-- Where it is granted, recording a migration adds its row. -/
theorem granting_record : Granting log (migrator.record migration) s fun answer requests t =>
    answer = .ok () ∧ requests = [.execute (Ledger.entering migration.app migration.name
      migration.number migrator.backend.now)] ∧
    ∃ ledger, Ledger.Gains migration (view s).ledger ledger ∧ view t = { view s with ledger } := by
  have hlogged := hlogs.execute
    (Ledger.entering migration.app migration.name migration.number migrator.backend.now)
  refine .adapt (Granting.bind (.any_of_isLogged hlogged) (fun _ => .pure _) ?_)
  refine .of_isLogged hlogged fun count t hexecute => .pure ⟨rfl, rfl, ?_⟩
  obtain ⟨entry, hentry, hview⟩ := h.enter _ _ _ _ _ _ hexecute
  exact ⟨_, ⟨entry, hentry, rfl⟩, hview⟩

omit h in
/-- Where it is granted, striking a migration takes its row away. -/
theorem granting_strike {name : String} (hstrikes : migrator.backend.Strikes view app name)
    (hthere : (view s).ledger.any (·.isFor app name) = true) :
    Granting log (Ledger.strike migrator.backend app name) s fun answer requests t =>
      answer = .ok () ∧
      requests = [.execute (.delete Ledger.table (Ledger.ofMigration app name))] ∧
      ∃ ledger, Ledger.Loses app name (view s).ledger ledger ∧ view t = { view s with ledger } := by
  have hlogged := hlogs.execute (.delete Ledger.table (Ledger.ofMigration app name))
  have hdelete : Granting log (migrator.backend.delete Ledger.model
      ((Ledger.isText "app" app).both (Ledger.isText "name" name))) s fun answer requests t =>
      requests = [.execute (.delete Ledger.table (Ledger.ofMigration app name))] ∧
      ∃ count, answer = .ok count ∧ count ≠ 0 ∧
        view t = { view s with ledger :=
          (view s).ledger.filter fun entry => !entry.isFor app name } := by
    rw [Ledger.delete_eq]
    refine .of_isLogged hlogged fun count t hexecute => ?_
    obtain ⟨rfl, hview⟩ := hstrikes _ _ _ hexecute
    refine ⟨rfl, _, rfl, ?_, hview⟩
    rw [Nat.ne_zero_iff_zero_lt, List.countP_pos_iff]
    exact List.any_eq_true.mp hthere
  refine Granting.bind (Asks.adapt ?_) (fun removed => ?_) (.adapt (hdelete.mono ?_))
  · rw [Ledger.delete_eq]
    exact .any_of_isLogged hlogged
  · split
    · exact .throw _
    · exact .pure _
  · rintro answer requests t ⟨rfl, count, rfl, hcount, hview⟩
    show Granting log (if count = 0 then throw (MigrationError.notFound app name) else pure ()) t _
    rw [if_neg hcount]
    exact .pure ⟨rfl, rfl, _, rfl, hview⟩

end Granting

end Migrator

end SchemaHistory
