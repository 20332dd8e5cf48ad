import SchemaHistory.Proofs.MigratorRequests

/-!
# The ledger after a call

What a call leaves in the ledger, however it ends and whatever is refused: applying adds the rows of
the first pending migrations, and what each of them depends on is there before it (`apply_rows`);
rolling back removes the rows of the last recorded ones (`rollback_rows`). Where changes to tables
are no part of a transaction, this takes a database whose ledger a refused statement leaves alone.
-/

namespace SchemaHistory

theorem Run.onDatabase_eq_answered {ρ α : Type} {work : Work ρ α} {τ τ' : Transcript ρ}
    {answer : Except MigrationError α} : onDatabase work τ = Backend.answered answer τ' ↔
      ∃ t, work τ.database = Backend.answered answer t ∧ τ' = { τ with database := t } := by
  cases answer with
  | ok a => exact onDatabase_eq_ok
  | error e => exact onDatabase_eq_error

variable {σ κ : Type} {effect : Statement → κ → Option κ} {view : σ → View κ}

/-- A statement that is refused outside of a transaction leaves the ledger as it is. -/
def Backend.KeepsLedger (backend : Backend σ) (view : σ → View κ) : Prop :=
  ∀ statement s e t, (view s).saved = none → backend.execute statement s = .error e t →
    (view t).ledger = (view s).ledger ∧ (view t).saved = none

/-- Changes to tables are part of a transaction, or a refusal does no harm to the ledger. -/
def Backend.GuardsLedger (backend : Backend σ) (view : σ → View κ) : Prop :=
  backend.dialect.capabilities.transactional = true ∨ backend.KeepsLedger view

namespace Ledger

/-- The rows of some migrations are added. -/
def Adds (applied : List Migration) (before after : List LedgerEntry) : Prop :=
  ∃ entries, List.Forall₂ (fun migration entry =>
      Records migration.app migration.name migration.number entry) applied entries ∧
    after = before ++ entries

/-- The rows of some migrations are removed. -/
def Removes (undone : List Migration) (before after : List LedgerEntry) : Prop :=
  after = before.filter fun entry =>
    undone.all fun migration => !entry.isFor migration.app migration.name

variable {migration : Migration} {rest : List Migration} {before between after : List LedgerEntry}

theorem Adds.nil : Adds [] before before := ⟨[], .nil, (List.append_nil _).symm⟩

theorem Adds.cons (hfirst : Gains migration before between) (hrest : Adds rest between after) :
    Adds (migration :: rest) before after := by
  obtain ⟨entry, hentry, rfl⟩ := hfirst
  obtain ⟨entries, hentries, rfl⟩ := hrest
  refine ⟨entry :: entries, .cons hentry hentries, ?_⟩
  rw [List.append_assoc, List.singleton_append]

theorem Removes.nil : Removes [] before before := by simp [Removes]

theorem Removes.cons (hfirst : Loses migration.app migration.name before between)
    (hrest : Removes rest between after) : Removes (migration :: rest) before after := by
  unfold Removes Loses at *
  rw [hrest, hfirst, List.filter_filter]
  simp only [List.all_cons, Bool.and_comm]

end Ledger

/-! ### Work outside of a transaction -/

/-- However some work ends, the ledger is as it was. -/
def Work.SparesLedger {α : Type} (view : σ → View κ) (work : Work σ α) : Prop :=
  ∀ s, (view s).saved = none → ∀ answer t, work s = Backend.answered answer t →
    (view t).ledger = (view s).ledger ∧ (view t).saved = none

section Sparing

variable {backend : Backend σ} {script : List Statement} {s t : σ}

/-- A script that stops leaves the ledger as it was. -/
theorem Backend.KeepsLedger.of_stops (h : backend.Reliable effect view)
    (hkeeps : backend.KeepsLedger view) {e : SchemaError} (hstops : backend.Stops script s e t)
    (hchange : ∀ statement ∈ script, statement.IsChange) (hclosed : (view s).saved = none) :
    (view t).ledger = (view s).ledger ∧ (view t).saved = none := by
  induction hstops with
  | here hexecute => exact hkeeps _ _ _ _ hclosed hexecute
  | @later statement rest s t u e count hexecute _ ih =>
      obtain ⟨hstatement, hrest⟩ := List.forall_mem_cons.mp hchange
      obtain ⟨contents, -, hview⟩ := h.change _ _ _ _ hstatement hexecute
      rw [hview] at ih
      exact ih hrest hclosed

/-- The work of a script spares the ledger. -/
theorem Work.SparesLedger.of_scripted (h : backend.Reliable effect view)
    (hkeeps : backend.KeepsLedger view) {work : ∀ σ, Backend σ → Work σ Unit}
    (hwork : Scripted backend.dialect backend.now MigrationError.schema work) :
    Work.SparesLedger view (work σ backend) := by
  have hruns : ∀ {script : List Statement} {s t : σ}, (∀ statement ∈ script, statement.IsChange) →
      (view s).saved = none → backend.Runs script s t →
      (view t).ledger = (view s).ledger ∧ (view t).saved = none := by
    intro script s t hchange hclosed hruns
    obtain ⟨contents, -, hview⟩ := h.view_of_runs hruns hchange
    rw [hview]
    exact ⟨rfl, hclosed⟩
  intro s hclosed answer t hrun
  cases answer with
  | ok a =>
      obtain ⟨script, hchange, hrun, -⟩ := hwork.of_ok hrun
      exact hruns hchange hclosed hrun
  | error e =>
      obtain ⟨script, hchange, hrun | ⟨e', hstops⟩⟩ := hwork.of_error hrun
      · exact hruns hchange hclosed hrun
      · exact hkeeps.of_stops h hstops hchange hclosed

end Sparing

/-- Where something that changes the ledger may end: the change is made if it succeeds, and none
otherwise. -/
def Turns {α : Type} (view : σ → View κ) (change : List LedgerEntry → List LedgerEntry → Prop)
    (s : σ) (answer : Except MigrationError α) (t : σ) : Prop :=
  (view t).saved = none ∧ match answer with
    | .ok _ => change (view s).ledger (view t).ledger
    | .error _ => (view t).ledger = (view s).ledger

namespace Migrator

variable {migrator : Migrator σ} {τ τ' : Transcript σ} {state : AppSchema} {migration : Migration}
  {app : String} {e : MigrationError}

section Stepwise

variable (h : migrator.backend.Reliable effect view) (hkeeps : migrator.backend.KeepsLedger view)
  (hclosed : (view τ.database).saved = none)

include h hkeeps

/-- Applying operations one by one leaves the rows of the ledger. -/
theorem rows_of_forwardCompleted {steps : Migration.Steps} {s t : σ}
    {answer : Except MigrationError (Migration.Steps × Option MigrationError)}
    (hclosed : (view s).saved = none)
    (hrun : Migration.forwardCompleted migrator.backend steps s = Backend.answered answer t) :
    (view t).ledger = (view s).ledger ∧ (view t).saved = none := by
  induction steps generalizing s t answer with
  | nil =>
      cases answer <;> cases hrun
      exact ⟨rfl, hclosed⟩
  | cons entry rest ih =>
      obtain ⟨operation, step⟩ := entry
      have hspares : Work.SparesLedger view (operation.forward migrator.backend step) :=
        .of_scripted h hkeeps (Scripted.forward operation step)
      unfold Migration.forwardCompleted at hrun
      cases hforward : operation.forward migrator.backend step s with
      | error e u =>
          rw [hforward] at hrun
          cases answer <;> cases hrun
          exact hspares s hclosed (.error e) t hforward
      | ok a u =>
          rw [hforward] at hrun
          dsimp only at hrun
          obtain ⟨hledger, hclosed'⟩ := hspares s hclosed (.ok a) u hforward
          rw [← hledger]
          cases hrest : Migration.forwardCompleted migrator.backend rest u with
          | ok found v =>
              rw [hrest] at hrun
              cases answer <;> cases hrun
              exact ih hclosed' (show _ = Backend.answered (.ok found) _ from hrest)
          | error e v =>
              rw [hrest] at hrun
              cases answer <;> cases hrun
              exact ih hclosed' (show _ = Backend.answered (.error e) _ from hrest)

include hclosed

theorem rows_of_undoCompleted {completed : Migration.Steps}
    (hrun : migrator.undoCompleted migration completed τ = .ok () τ') :
    (view τ'.database).ledger = (view τ.database).ledger ∧ (view τ'.database).saved = none := by
  have hspares : Work.SparesLedger view (Migration.backwardAll migrator.backend completed) :=
    .of_scripted h hkeeps (Scripted.backwardAll completed)
  obtain ⟨⟨⟩, τ₁, hreport, hrun⟩ := bind_eq_ok.mp hrun
  rw [← database_of_report hreport] at hclosed ⊢
  obtain ⟨answer, τ₂, hattempt, hrun⟩ := bind_eq_ok.mp hrun
  have hanswer := Run.attempt_eq_ok.mp hattempt
  cases answer with
  | ok a =>
      obtain ⟨t, hwork, rfl⟩ := Run.onDatabase_eq_ok.mp hanswer
      cases hrun
      exact hspares _ hclosed (.ok a) t hwork
  | error e =>
      obtain ⟨t, hwork, rfl⟩ := Run.onDatabase_eq_error.mp hanswer
      cases hrun
      exact hspares _ hclosed (.error e) t hwork

end Stepwise

/-! ### One migration -/

theorem eq_of_undoCompleted {completed : Migration.Steps}
    (herror : migrator.undoCompleted migration completed τ = .error e τ') : False := by
  rcases bind_eq_error.mp herror with hreport | ⟨⟨⟩, τ₁, -, herror⟩
  · cases hreport
  rcases bind_eq_error.mp herror with hattempt | ⟨answer, τ₂, -, herror⟩
  · exact Run.attempt_ne_error hattempt
  · cases answer <;> cases herror

/-- Recording a migration adds its row or leaves the ledger. -/
theorem turns_record (h : migrator.backend.Reliable effect view)
    (hkeeps : migrator.backend.KeepsLedger view) {s t : σ} (hclosed : (view s).saved = none)
    {answer : Except MigrationError Unit}
    (hrun : migrator.record migration s = Backend.answered answer t) :
    Turns view (Ledger.Gains migration) s answer t := by
  cases answer with
  | ok a =>
      obtain ⟨entry, hentry, hview⟩ := Ledger.enter_ok h hrun
      unfold Turns
      rw [hview]
      exact ⟨hclosed, entry, hentry, rfl⟩
  | error e =>
      obtain ⟨cause, hinsert, -⟩ := adaptExcept_eq_error.mp hrun
      rcases bind_eq_error.mp hinsert with hexecute | ⟨count, u, -, hpure⟩
      · exact (hkeeps _ _ _ _ hclosed hexecute).symm
      · exact absurd hpure pure_ne_error

/-- Striking one takes its row away or leaves the ledger. -/
theorem turns_strike {name : String} (hstrikes : migrator.backend.Strikes view app name)
    (hkeeps : migrator.backend.KeepsLedger view) {s t : σ} (hclosed : (view s).saved = none)
    {answer : Except MigrationError Unit}
    (hrun : Ledger.strike migrator.backend app name s = Backend.answered answer t) :
    Turns view (Ledger.Loses app name) s answer t := by
  cases answer with
  | ok a =>
      unfold Turns
      rw [Ledger.strike_ok hstrikes hrun]
      exact ⟨hclosed, rfl⟩
  | error e =>
      rcases bind_eq_error.mp hrun with hrefused | ⟨count, u, hdelete, hrun⟩
      · obtain ⟨cause, hexecute, -⟩ := adaptExcept_eq_error.mp hrefused
        rw [Ledger.delete_eq] at hexecute
        exact (hkeeps _ _ _ _ hclosed hexecute).symm
      · have hexecute := adaptExcept_eq_ok.mp hdelete
        rw [Ledger.delete_eq] at hexecute
        obtain ⟨hcount, hview⟩ := hstrikes _ _ _ hexecute
        by_cases hnone : count = 0
        · -- there was no such row to begin with
          rw [if_pos hnone] at hrun
          obtain ⟨-, rfl⟩ := throw_eq_error.mp hrun
          unfold Turns
          rw [hview]
          refine ⟨hclosed, List.filter_eq_self.mpr fun entry hentry => ?_⟩
          simpa using List.countP_eq_zero.mp (hcount.symm.trans hnone) entry hentry
        · rw [if_neg hnone] at hrun
          exact absurd hrun pure_ne_error

/-- Stepwise application adds the row of the migration or leaves the ledger. -/
theorem turns_applyStepwise (h : migrator.backend.Reliable effect view)
    (hkeeps : migrator.backend.KeepsLedger view) {steps : Migration.Steps}
    (hclosed : (view τ.database).saved = none) {answer : Except MigrationError Unit}
    (hrun : migrator.applyStepwise migration steps τ = Backend.answered answer τ') :
    Turns view (Ledger.Gains migration) τ.database answer τ'.database := by
  -- the operations are carried out as far as they go, with the ledger as it is
  have hcarried : ∀ {answer : Except MigrationError (Migration.Steps × Option MigrationError)}
      {τ₁ : Transcript σ},
      Run.onDatabase (Migration.forwardCompleted migrator.backend steps) τ
        = Backend.answered answer τ₁ →
      (view τ₁.database).ledger = (view τ.database).ledger ∧ (view τ₁.database).saved = none := by
    intro answer τ₁ hwork
    obtain ⟨t, hforward, rfl⟩ := Run.onDatabase_eq_answered.mp hwork
    exact rows_of_forwardCompleted h hkeeps hclosed hforward
  unfold Turns
  rcases bind_eq_answered.mp hrun with
    ⟨⟨completed, failure⟩, τ₁, hwork, hrun⟩ | ⟨e, rfl, hwork⟩
  · obtain ⟨hledger, hclosed'⟩ := hcarried (show _ = Backend.answered (.ok _) τ₁ from hwork)
    rw [← hledger]
    cases failure with
    | none =>
        obtain ⟨t, hrecord, rfl⟩ := Run.onDatabase_eq_answered.mp hrun
        exact turns_record h hkeeps hclosed' hrecord
    | some e =>
        rcases bind_eq_answered.mp hrun with ⟨⟨⟩, τ₂, hundo, hthrow⟩ | ⟨e, -, hundo⟩
        · cases answer with
          | ok a => exact absurd hthrow throw_ne_ok
          | error e =>
              obtain ⟨-, rfl⟩ := throw_eq_error.mp hthrow
              exact (rows_of_undoCompleted h hkeeps hclosed' hundo).symm
        · exact (eq_of_undoCompleted hundo).elim
  · exact (hcarried (show _ = Backend.answered (.error e) τ' from hwork)).symm

section Turns

variable (h : migrator.backend.Reliable effect view) (hguards : migrator.backend.GuardsLedger view)
  (hdry : migrator.dryRun = false) (hclosed : (view τ.database).saved = none)

include h hguards hdry hclosed

/-- A migration that is applied gets its row. One that fails leaves the rows as they are. -/
theorem turns_perform (happ : migration.app = state.app) {answer : Except MigrationError AppSchema}
    (hrun : migrator.perform state migration τ = Backend.answered answer τ') :
    Turns view (Ledger.Gains migration) τ.database answer τ'.database := by
  unfold Turns
  by_cases htransactional : migrator.backend.dialect.capabilities.transactional = true
  · cases answer with
    | ok next =>
        obtain ⟨-, statements, contents, entry, -, -, hentry, hview⟩ :=
          perform_ok h hdry htransactional hclosed hrun
        rw [hview]
        exact ⟨rfl, entry, hentry, rfl⟩
    | error e =>
        rw [perform_error h hdry htransactional hclosed happ hrun]
        exact ⟨hclosed, rfl⟩
  have hkeeps := hguards.resolve_left htransactional
  rcases bind_eq_answered.mp hrun with ⟨⟨⟩, τ₁, hreport, hrun⟩ | ⟨e, -, hreport⟩
  swap
  · cases hreport
  rw [← database_of_report hreport] at hclosed ⊢
  rcases bind_eq_answered.mp hrun with ⟨steps, τ₂, hanswer, hrun⟩ | ⟨e, rfl, hanswer⟩
  swap
  · rw [(Run.ofExcept_eq_error.mp hanswer).2] at hclosed ⊢
    exact ⟨hclosed, rfl⟩
  obtain ⟨hsteps, rfl⟩ := Run.ofExcept_eq_ok.mp hanswer
  rw [if_neg (by rw [hdry]; simp), if_neg htransactional] at hrun
  rcases bind_eq_answered.mp hrun with ⟨⟨⟩, τ₂, hstepwise, hrun⟩ | ⟨e, rfl, hstepwise⟩
  · -- the steps lead to a next state, and nothing is left but a message
    obtain ⟨next, hnext⟩ := next_of_steps happ hsteps
    rw [hnext] at hrun
    cases answer <;> cases hrun
    exact turns_applyStepwise h hkeeps hclosed
      (show _ = Backend.answered (.ok ()) τ₂ from hstepwise)
  · exact turns_applyStepwise h hkeeps hclosed
      (show _ = Backend.answered (.error e) τ' from hstepwise)

/-- A migration that is undone loses its rows. One that fails leaves the rows as they are. -/
theorem turns_revert {steps : Migration.Steps}
    (hstrikes : migrator.backend.Strikes view migration.app migration.name)
    {answer : Except MigrationError Unit}
    (hrun : migrator.revert migration steps τ = Backend.answered answer τ') :
    Turns view (Ledger.Loses migration.app migration.name) τ.database answer τ'.database := by
  unfold Turns
  by_cases htransactional : migrator.backend.dialect.capabilities.transactional = true
  · cases answer with
    | ok a =>
        obtain ⟨statements, contents, -, -, hview⟩ :=
          revert_ok h hdry htransactional hstrikes hclosed hrun
        rw [hview]
        exact ⟨rfl, rfl⟩
    | error e =>
        rw [revert_error h hdry htransactional hstrikes hclosed hrun]
        exact ⟨hclosed, rfl⟩
  have hkeeps := hguards.resolve_left htransactional
  have hwork : ∀ {answer : Except MigrationError Unit} {s t : σ}, (view s).saved = none →
      (do
        Migration.backwardAll migrator.backend steps
        Ledger.strike migrator.backend migration.app migration.name : Work σ Unit) s
        = Backend.answered answer t →
      Turns view (Ledger.Loses migration.app migration.name) s answer t := by
    intro answer s t hclosed hrun
    have hspares : Work.SparesLedger view (Migration.backwardAll migrator.backend steps) :=
      .of_scripted h hkeeps (Scripted.backwardAll steps)
    unfold Turns
    rcases bind_eq_answered.mp hrun with ⟨⟨⟩, u, hbackward, hstrike⟩ | ⟨e, rfl, hbackward⟩
    · obtain ⟨hledger, hclosed'⟩ := hspares s hclosed (.ok ()) u hbackward
      rw [← hledger]
      exact turns_strike hstrikes hkeeps hclosed' hstrike
    · exact (hspares s hclosed (.error e) t hbackward).symm
  rcases bind_eq_answered.mp hrun with ⟨⟨⟩, τ₁, hreport, hrun⟩ | ⟨e, -, hreport⟩
  swap
  · cases hreport
  rw [← database_of_report hreport] at hclosed ⊢
  rw [if_neg (by rw [hdry]; simp), if_neg htransactional] at hrun
  rcases bind_eq_answered.mp hrun with ⟨⟨⟩, τ₂, hdone, hrun⟩ | ⟨e, rfl, hfailed⟩
  · obtain ⟨t, hreverted, rfl⟩ := Run.onDatabase_eq_ok.mp hdone
    cases answer <;> cases hrun
    exact hwork hclosed (show _ = Backend.answered (.ok ()) t from hreverted)
  · obtain ⟨t, hreverted, rfl⟩ := Run.onDatabase_eq_error.mp hfailed
    exact hwork hclosed (show _ = Backend.answered (.error e) t from hreverted)

end Turns

/-! ### One migration after the other -/

section ApplyAll

variable {ordered rest : List Migration} {recorded done : List String}

/-- What passes the check is recorded, or was carried out before in the same call. -/
theorem met_of_requireApplied (h : migrator.backend.Reliable effect view)
    (hdry : migrator.dryRun = false) (hok : migrator.requireApplied migration done τ = .ok () τ') :
    ∀ needed ∈ migration.dependencies, (needed.1 = migration.app ∧ needed.2 ∈ done) ∨
      (view τ.database).ledger.any (·.isFor needed.1 needed.2) = true := by
  intro needed hmem
  obtain ⟨τ₁, τ₂, hview, hround⟩ :=
    Run.Looks.exists_of_forM_eq_ok (looks_requirement h.unmoved done) hok needed hmem
  split at hround
  · next hown => exact Or.inl (by simpa using hown)
  · obtain ⟨found, τ₃, hfound, hround⟩ := bind_eq_ok.mp hround
    obtain rfl := hasApplied_ok h hdry hfound
    rw [← hview]
    split at hround
    · exact absurd hround throw_ne_ok
    · next hrecorded => exact Or.inr (by simpa using hrecorded)

/-- What the first migration depends on is recorded or has been applied, and the others come after
it. -/
theorem supplied_cons {applied : List Migration} {done : List String}
    {before between : List LedgerEntry}
    (hmet : ∀ needed ∈ migration.dependencies,
      (needed.1 = migration.app ∧ needed.2 ∈ done) ∨
        before.any (·.isFor needed.1 needed.2) = true)
    (hdone : ∀ name ∈ done, before.any (·.isFor migration.app name) = true)
    (hgains : Ledger.Gains migration before between)
    (hafter : ∀ other ∈ applied, migration.name < other.name)
    (hrest : Ledger.Supplied between applied) :
    Ledger.Supplied before (migration :: applied) := by
  obtain ⟨entry, ⟨hentryApp, hentryName, -⟩, rfl⟩ := hgains
  intro other hother needed hneeded
  rcases List.mem_cons.mp hother with rfl | hother
  · refine Or.inl ?_
    rcases hmet needed hneeded with ⟨happ, hname⟩ | hrecorded
    · rw [happ]
      exact hdone _ hname
    · exact hrecorded
  · rcases hrest other hother needed hneeded with hrecorded | ⟨earlier, hearlier, heq, hlt⟩
    · rw [List.any_append, Bool.or_eq_true] at hrecorded
      rcases hrecorded with hrecorded | hfirst
      · exact Or.inl hrecorded
      · -- it is the first migration itself
        refine Or.inr ⟨migration, List.mem_cons_self, ?_, hafter other hother⟩
        have hthis : migration.app = needed.1 ∧ migration.name = needed.2 := by
          simpa [LedgerEntry.isFor, hentryApp, hentryName] using hfirst
        exact Prod.ext hthis.1 hthis.2
    · exact Or.inr ⟨earlier, List.mem_cons_of_mem _ hearlier, heq, hlt⟩

/-- However applying ends, the first of those that are not recorded have got their rows, and each
has found there what it depends on. -/
theorem applyAll_rows (h : migrator.backend.Reliable effect view)
    (hguards : migrator.backend.GuardsLedger view) (hdry : migrator.dryRun = false)
    (hahead : Ahead app ordered state rest) (hclosed : (view τ.database).saved = none)
    (hdone : ∀ name ∈ done, (view τ.database).ledger.any (·.isFor app name) = true)
    {answer : Except MigrationError (List String)}
    (hrun : migrator.applyAll recorded state done rest τ = Backend.answered answer τ') :
    (view τ'.database).saved = none ∧ ∃ applied left,
      (rest.filter fun migration => !recorded.contains migration.name) = applied ++ left ∧
      Ledger.Adds applied (view τ.database).ledger (view τ'.database).ledger ∧
      Ledger.Supplied (view τ.database).ledger applied := by
  induction rest generalizing state done τ with
  | nil =>
      cases answer <;> cases hrun
      exact ⟨hclosed, [], [], rfl, .nil, nofun⟩
  | cons migration rest ih =>
      have happ : migration.app = app := hahead.app_eq _ (hahead.mem List.mem_cons_self)
      -- nothing is applied where this is the end
      have hhere : view τ'.database = view τ.database →
          (view τ'.database).saved = none ∧ ∃ applied left,
            ((migration :: rest).filter fun migration => !recorded.contains migration.name)
              = applied ++ left ∧
            Ledger.Adds applied (view τ.database).ledger (view τ'.database).ledger ∧
            Ledger.Supplied (view τ.database).ledger applied := by
        intro hsame
        rw [hsame]
        exact ⟨hclosed, [], _, rfl, .nil, nofun⟩
      cases appliesFirst hrun with
      | skipped hrecorded hnext hsame hrest =>
          rw [← hsame] at hclosed hdone ⊢
          rw [List.filter_cons_of_neg (by rw [hrecorded]; simp)]
          exact ih (hahead.tail hnext) hclosed hdone hrest
      | refused _ _ hsame => exact hhere (by rw [hsame])
      | missing _ hrequired =>
          exact hhere ((looks_requireApplied h.unmoved _).error _ _ _ hrequired)
      | failed _ hrequired hfailed =>
          have hsame := (looks_requireApplied h.unmoved _).ok _ _ _ hrequired
          rw [← hsame] at hclosed
          obtain ⟨hclosed', hledger⟩ :=
            turns_perform h hguards hdry hclosed (happ.trans hahead.state_app_eq.symm)
              (show _ = Backend.answered (.error _) τ' from hfailed)
          refine ⟨hclosed', [], _, rfl, ?_, nofun⟩
          rw [hledger, hsame]
          exact .nil
      | @applied next τ₁ τ₂ _ _ hrecorded hrequired hperform hrest =>
          have hmet := met_of_requireApplied h hdry hrequired
          rw [← (looks_requireApplied h.unmoved _).ok _ _ _ hrequired] at hclosed hdone hmet ⊢
          obtain ⟨hclosed', hgains⟩ :=
            turns_perform h hguards hdry hclosed (happ.trans hahead.state_app_eq.symm)
              (show _ = Backend.answered (.ok next) τ₂ from hperform)
          have hdone' : ∀ name ∈ done ++ [migration.name],
              (view τ₂.database).ledger.any (·.isFor app name) = true := by
            obtain ⟨entry, ⟨hentryApp, hentryName, -⟩, hledger⟩ := hgains
            intro name hname
            rw [hledger, List.any_append, Bool.or_eq_true]
            rcases List.mem_append.mp hname with hname | hname
            · exact Or.inl (hdone name hname)
            · rw [List.mem_singleton.mp hname, ← happ]
              exact Or.inr (by simp [LedgerEntry.isFor, hentryApp, hentryName])
          obtain ⟨hend, applied, left, hsplit, hadds, hsupplied⟩ :=
            ih (hahead.tail (next_of_perform hperform)) hclosed' hdone' hrest
          refine ⟨hend, migration :: applied, left, ?_, .cons hgains hadds,
            supplied_cons hmet (happ ▸ hdone) hgains (fun other hother => ?_) hsupplied⟩
          · rw [List.filter_cons_of_pos (by simpa using hrecorded), hsplit, List.cons_append]
          · have hmem : other ∈ rest.filter fun migration =>
                !recorded.contains migration.name := by
              rw [hsplit]
              exact List.mem_append_left _ hother
            exact hahead.name_lt (List.mem_of_mem_filter hmem)

end ApplyAll

/-- However undoing ends, the first of the list have lost their rows. -/
theorem revertAll_rows (h : migrator.backend.Reliable effect view)
    (hguards : migrator.backend.GuardsLedger view) (hdry : migrator.dryRun = false)
    {undo : List (Migration × Migration.Steps)}
    (hstrikes : ∀ entry ∈ undo, migrator.backend.Strikes view entry.1.app entry.1.name)
    (hclosed : (view τ.database).saved = none) {answer : Except MigrationError Unit}
    (hrun : migrator.revertAll undo τ = Backend.answered answer τ') :
    (view τ'.database).saved = none ∧ ∃ undone left, undo.map (·.1) = undone ++ left ∧
      Ledger.Removes undone (view τ.database).ledger (view τ'.database).ledger := by
  induction undo generalizing τ with
  | nil =>
      cases answer <;> cases hrun
      exact ⟨hclosed, [], [], rfl, .nil⟩
  | cons entry rest ih =>
      obtain ⟨migration, steps⟩ := entry
      obtain ⟨hstrike, hstrikes⟩ := List.forall_mem_cons.mp hstrikes
      have hreverted : ∀ {answer : Except MigrationError Unit} {τ₁ : Transcript σ},
          migrator.revert migration steps τ = Backend.answered answer τ₁ →
          Turns view (Ledger.Loses migration.app migration.name) τ.database answer τ₁.database :=
        turns_revert h hguards hdry hclosed hstrike
      rcases bind_eq_answered.mp hrun with ⟨⟨⟩, τ₁, hrevert, hrun⟩ | ⟨e, -, hrevert⟩
      · have hok := adaptExcept_eq_ok.mp hrevert
        obtain ⟨hclosed', hloses⟩ := hreverted (show _ = Backend.answered (.ok ()) τ₁ from hok)
        obtain ⟨hend, undone, left, hsplit, hremoves⟩ := ih hstrikes hclosed' hrun
        refine ⟨hend, migration :: undone, left, ?_, .cons hloses hremoves⟩
        rw [List.map_cons, hsplit, List.cons_append]
      · obtain ⟨cause, hfailed, -⟩ := adaptExcept_eq_error.mp hrevert
        obtain ⟨hclosed', hledger⟩ :=
          hreverted (show _ = Backend.answered (.error cause) τ' from hfailed)
        refine ⟨hclosed', [], _, rfl, ?_⟩
        rw [hledger]
        exact .nil

/-! ### A call -/

section Call

variable {migrations ordered : List Migration} (h : migrator.backend.Reliable effect view)
  (hguards : migrator.backend.GuardsLedger view) (hdry : migrator.dryRun = false)
  (horder : Migration.InOrder app migrations ordered) (hclosed : (view τ.database).saved = none)
  {answer : Except MigrationError (List String)}

include h hguards hdry horder hclosed

/-- However applying ends, the first pending migrations have got their rows, and each has found
there what it depends on. -/
theorem apply_rows {target : Option String}
    (hrun : migrator.apply app migrations target τ = Backend.answered answer τ') :
    (view τ'.database).saved = none ∧ ∃ applied left,
      Ledger.pending (view τ.database).ledger app target ordered = applied ++ left ∧
      Ledger.Adds applied (view τ.database).ledger (view τ'.database).ledger ∧
      Ledger.Supplied (view τ.database).ledger applied := by
  have hhere : view τ'.database = view τ.database → (view τ'.database).saved = none ∧
      ∃ applied left,
        Ledger.pending (view τ.database).ledger app target ordered = applied ++ left ∧
        Ledger.Adds applied (view τ.database).ledger (view τ'.database).ledger ∧
        Ledger.Supplied (view τ.database).ledger applied := by
    intro hsame
    rw [hsame]
    exact ⟨hclosed, [], _, rfl, .nil, nofun⟩
  cases applying h hdry horder hrun with
  | unknown => exact hhere rfl
  | unread hentries => exact hhere ((looks_entries h.unmoved).error _ _ _ hentries)
  | worked hsame hall hdatabase =>
      rw [← hsame] at hclosed hall ⊢
      rw [hdatabase, ← pending_eq horder]
      exact applyAll_rows h hguards hdry
        (.of_inOrder horder (List.takeWhile_append_dropWhile).symm) hclosed
        (List.forall_mem_nil _) hall

/-- However rolling back ends, the last of the recorded migrations above the target have lost their
rows. -/
theorem rollback_rows {target : String}
    (hrun : migrator.rollback app migrations target τ = Backend.answered answer τ') :
    (view τ'.database).saved = none ∧ ∃ undone left,
      Ledger.above (view τ.database).ledger app target ordered = undone ++ left ∧
      Ledger.Removes undone (view τ.database).ledger (view τ'.database).ledger := by
  have hhere : view τ'.database = view τ.database → (view τ'.database).saved = none ∧
      ∃ undone left, Ledger.above (view τ.database).ledger app target ordered = undone ++ left ∧
        Ledger.Removes undone (view τ.database).ledger (view τ'.database).ledger := by
    intro hsame
    rw [hsame]
    exact ⟨hclosed, [], _, rfl, .nil⟩
  -- however it ends, the list is that of the migrations above the target
  have hworked : ∀ {undo : List (Migration × Migration.Steps)} {answer : Except MigrationError Unit}
      {τ₁ : Transcript σ}, view τ₁.database = view τ.database →
      undoList (numberOfTarget target) { app }
        (Ledger.recorded (view τ.database).ledger app ordered)
        = .ok undo →
      migrator.revertAll undo.reverse τ₁ = Backend.answered answer τ' →
      (view τ'.database).saved = none ∧ ∃ undone left,
        Ledger.above (view τ.database).ledger app target ordered = undone ++ left ∧
        Ledger.Removes undone (view τ.database).ledger (view τ'.database).ledger := by
    intro undo answer τ₁ hsame hundo hall
    rw [← above_of_undoList hundo, ← hsame]
    exact revertAll_rows h hguards hdry (ready_of_undoList h horder hundo).1 (hsame ▸ hclosed) hall
  cases rollingBack h hdry horder hrun with
  | unread hentries => exact hhere ((looks_entries h.unmoved).error _ _ _ hentries)
  | unknown hsame => exact hhere hsame
  | stuck hsame _ => exact hhere hsame
  | idle hsame _ => exact hhere hsame
  | failed hsame hundo hall =>
      exact hworked hsame hundo (show _ = Backend.answered (.error _) τ' from hall)
  | worked hsame hundo hall =>
      exact hworked hsame hundo (show _ = Backend.answered (.ok ()) τ' from hall)

end Call

end Migrator

end SchemaHistory
