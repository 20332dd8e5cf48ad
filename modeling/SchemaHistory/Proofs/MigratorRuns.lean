import SchemaHistory.Proofs.Replay
import SchemaHistory.Proofs.Transactions

/-!
# What the migrator leaves behind

The migrator works through a list of migrations, one transaction each. Wherever it stops, the
database is as if some of the first migrations of the list had been carried out, each from beginning
to end, and none of the others: `applyAll_error` for applying and `revertAll_error` for undoing. The
failing migration is none of those that have been carried out.
-/

namespace SchemaHistory

/-- The migration that an error is about, if it arose while one was at work. -/
def MigrationError.migration? : MigrationError → Option String
  | during _ name _ | missingDependency _ name _ _ => some name
  | _ => none

namespace Migration

/-! ### Scripts and what they do -/

/-- The statements of a migration from a state on: those that the recorder records of it. -/
def script (dialect : Dialect) (now : DateTime) (state : AppSchema) (migration : Migration)
    (reverse : Bool) : Except MigrationError (List Statement) := do
  let steps := migration.withSteps (← state.steps migration)
  recording dialect now fun backend =>
    if reverse then backwardAll backend steps else forwardAll backend steps

/-- The statements of a migration that stands somewhere in a list, after all before it have been
applied. -/
def HasScript (dialect : Dialect) (now : DateTime) (app : String) (reverse : Bool)
    (ordered : List Migration) (migration : Migration) (statements : List Statement) : Prop :=
  ∃ earlier later state, ordered = earlier ++ migration :: later ∧
    AppSchema.replay app earlier = .ok state ∧
    migration.script dialect now state reverse = .ok statements

section Place

variable {dialect : Dialect} {now : DateTime} {app : String}
  {ordered earlier later : List Migration} {migration : Migration}

/-- A migration stands at one place. -/
theorem eq_of_split {earlier' later' : List Migration} (hnodup : ordered.Nodup)
    (h : ordered = earlier ++ migration :: later) (h' : ordered = earlier' ++ migration :: later') :
    earlier = earlier' := by
  rw [h, List.nodup_middle, List.nodup_cons, List.mem_append, not_or] at hnodup
  exact ((List.append_cons_inj_of_notMem hnodup.1.1 hnodup.1.2).mp (h.symm.trans h')).1

/-- The script of a migration starts from the state that the ones before it lead to. -/
theorem HasScript.state {reverse : Bool} {statements : List Statement} (hnodup : ordered.Nodup)
    (h : migration.HasScript dialect now app reverse ordered statements)
    (hordered : ordered = earlier ++ migration :: later) :
    ∃ state, AppSchema.replay app earlier = .ok state ∧
      migration.script dialect now state reverse = .ok statements := by
  obtain ⟨earlier', later', state, hordered', hreplay, hscript⟩ := h
  obtain rfl := eq_of_split hnodup hordered' hordered
  exact ⟨state, hreplay, hscript⟩

/-- A migration has one script in its order. -/
theorem HasScript.unique {reverse : Bool} {statements other : List Statement}
    (hnodup : ordered.Nodup)
    (h : migration.HasScript dialect now app reverse ordered statements)
    (h' : migration.HasScript dialect now app reverse ordered other) : statements = other := by
  obtain ⟨earlier, later, state, hordered, hreplay, hscript⟩ := h
  obtain ⟨state', hreplay', hscript'⟩ := h'.state hnodup hordered
  obtain rfl := Except.ok.inj (hreplay.symm.trans hreplay')
  exact Except.ok.inj (hscript.symm.trans hscript')

end Place

/-- Contents are changed by the statements of some migrations, one migration after the other. -/
inductive Carried {κ : Type} (effect : Statement → κ → Option κ)
    (hasScript : Migration → List Statement → Prop) : List Migration → κ → κ → Prop where
  | nil (contents : κ) : Carried effect hasScript [] contents contents
  | cons {migration : Migration} {rest : List Migration} {statements : List Statement} {c d e : κ} :
      hasScript migration statements → Backend.Reliable.effects effect statements c = some d →
      Carried effect hasScript rest d e → Carried effect hasScript (migration :: rest) c e

end Migration

/-- The database after exactly some migrations have been applied and kept. -/
structure View.Advanced {κ : Type} (effect : Statement → κ → Option κ)
    (hasScript : Migration → List Statement → Prop) (applied : List Migration)
    (before after : View κ) :
    Prop where
  contents : Migration.Carried effect hasScript applied before.contents after.contents
  ledger : ∃ entries, List.Forall₂ (fun migration entry =>
      Ledger.Records migration.app migration.name migration.number entry) applied entries ∧
    after.ledger = before.ledger ++ entries
  saved : after.saved = none
  commits : after.commits = before.commits + applied.length

/-- The database after exactly some migrations have been undone and their records removed. -/
structure View.Receded {κ : Type} (effect : Statement → κ → Option κ)
    (hasScript : Migration → List Statement → Prop) (undone : List Migration)
    (before after : View κ) :
    Prop where
  contents : Migration.Carried effect hasScript undone before.contents after.contents
  ledger : after.ledger = before.ledger.filter fun entry =>
    undone.all fun migration => !entry.isFor migration.app migration.name
  saved : after.saved = none
  commits : after.commits = before.commits + undone.length

section Progress

variable {κ : Type} {effect : Statement → κ → Option κ}
  {hasScript : Migration → List Statement → Prop} {before between after : View κ}
  {migration : Migration} {rest : List Migration} {statements : List Statement} {contents : κ}

theorem View.Advanced.nil (h : before.saved = none) :
    View.Advanced effect hasScript [] before before :=
  ⟨.nil _, ⟨[], .nil, (List.append_nil _).symm⟩, h, rfl⟩

/-- Carrying out one more migration in front, with its commit and its row. -/
theorem View.Advanced.cons (hscript : hasScript migration statements)
    (heffects : Backend.Reliable.effects effect statements before.contents = some contents)
    {entry : LedgerEntry}
    (hentry : Ledger.Records migration.app migration.name migration.number entry)
    (hbetween : between = ⟨contents, before.ledger ++ [entry], none, before.commits + 1⟩)
    (hrest : View.Advanced effect hasScript rest between after) :
    View.Advanced effect hasScript (migration :: rest) before after := by
  obtain ⟨hcontents, ⟨entries, hentries, hledger⟩, hsaved, hcommits⟩ := hrest
  subst hbetween
  refine ⟨.cons hscript heffects hcontents, ⟨entry :: entries, .cons hentry hentries, ?_⟩,
    hsaved, ?_⟩
  · rw [hledger, List.append_assoc, List.singleton_append]
  · rw [hcommits, List.length_cons]
    show before.commits + 1 + rest.length = before.commits + (rest.length + 1)
    omega

theorem View.Receded.nil (h : before.saved = none) :
    View.Receded effect hasScript [] before before := by
  refine ⟨.nil _, ?_, h, rfl⟩
  simp

/-- Undoing one more migration in front, with its commit and without its row. -/
theorem View.Receded.cons (hscript : hasScript migration statements)
    (heffects : Backend.Reliable.effects effect statements before.contents = some contents)
    (hbetween : between = ⟨contents,
      before.ledger.filter fun entry => !entry.isFor migration.app migration.name, none,
      before.commits + 1⟩)
    (hrest : View.Receded effect hasScript rest between after) :
    View.Receded effect hasScript (migration :: rest) before after := by
  obtain ⟨hcontents, hledger, hsaved, hcommits⟩ := hrest
  subst hbetween
  refine ⟨.cons hscript heffects hcontents, ?_, hsaved, ?_⟩
  · rw [hledger, List.filter_filter]
    simp only [List.all_cons, Bool.and_comm]
  · rw [hcommits, List.length_cons]
    show before.commits + 1 + rest.length = before.commits + (rest.length + 1)
    omega

end Progress

/-! ### Operations until one fails -/

namespace Migration

variable {σ : Type}

/-- How carrying operations out until one fails has ended: all of them are complete, or those before
the one that has failed. -/
inductive EndsWith (backend : Backend σ) (steps : Steps) (s : σ) :
    Steps → Option MigrationError → σ → Prop where
  | all {t : σ} : forwardAll backend steps s = .ok () t → EndsWith backend steps s steps none t
  | failed {completed rest : Steps} {operation : Operation} {step : AppSchema.Step} {u t : σ}
      {e : MigrationError} : steps = completed ++ (operation, step) :: rest →
      forwardAll backend completed s = .ok () u → operation.forward backend step u = .error e t →
      EndsWith backend steps s completed (some e) t

variable {backend : Backend σ} {steps completed : Steps} {s t u : σ}

theorem EndsWith.cons {operation : Operation} {step : AppSchema.Step}
    {failure : Option MigrationError} (hforward : operation.forward backend step s = .ok () u)
    (h : EndsWith backend steps u completed failure t) :
    EndsWith backend ((operation, step) :: steps) s ((operation, step) :: completed) failure t := by
  cases h with
  | all hall => exact .all (forM_cons_eq_ok.mpr ⟨u, hforward, hall⟩)
  | failed hsteps hall hfails =>
      rw [hsteps]
      exact .failed List.cons_append.symm (forM_cons_eq_ok.mpr ⟨u, hforward, hall⟩) hfails

/-- Operations are carried out one after the other until one fails, and this is no error itself. -/
theorem exists_forwardCompleted (backend : Backend σ) (steps : Steps) (s : σ) :
    ∃ completed failure t, forwardCompleted backend steps s = .ok (completed, failure) t ∧
      EndsWith backend steps s completed failure t := by
  induction steps generalizing s with
  | nil => exact ⟨[], none, s, rfl, .all rfl⟩
  | cons entry rest ih =>
      obtain ⟨operation, step⟩ := entry
      unfold forwardCompleted
      cases hforward : operation.forward backend step s with
      | error e u => exact ⟨[], some e, u, rfl, .failed rfl rfl hforward⟩
      | ok a u =>
          obtain ⟨completed, failure, t, hrest, hends⟩ := ih u
          refine ⟨_, failure, t, ?_, hends.cons hforward⟩
          dsimp only
          rw [hrest]

/-- Stepwise application ends at the first operation that fails or at the end. -/
theorem forwardCompleted_eq_ok {failure : Option MigrationError}
    (h : forwardCompleted backend steps s = .ok (completed, failure) t) :
    EndsWith backend steps s completed failure t := by
  obtain ⟨completed', failure', t', heq, hends⟩ := exists_forwardCompleted backend steps s
  cases h.symm.trans heq
  exact hends

theorem forwardCompleted_ne_error {e : MigrationError} :
    forwardCompleted backend steps s ≠ .error e t := by
  intro h
  obtain ⟨completed, failure, t', heq, -⟩ := exists_forwardCompleted backend steps s
  cases h.symm.trans heq

end Migration

namespace Migrator

variable {σ κ : Type} {migrator : Migrator σ} {effect : Statement → κ → Option κ}
  {view : σ → View κ}
  {τ τ' : Transcript σ} {e : MigrationError} {state state' : AppSchema} {migration : Migration}
  {app name : String}

/-! ### Asking the ledger -/

theorem looks_entries {ω : Type} {seen : σ → ω} (h : migrator.backend.Unmoved seen) :
    Run.Looks seen (migrator.entries app) := by
  refine Run.Looks.bind ⟨?_, ?_⟩ fun answer => ?_
  · intro τ answer τ' hattempt
    have hanswer := Run.attempt_eq_ok.mp hattempt
    cases answer with
    | ok records =>
        obtain ⟨t, hentries, rfl⟩ := Run.onDatabase_eq_ok.mp hanswer
        exact (Ledger.seen_of_entries h).1 _ hentries
    | error e =>
        obtain ⟨t, hentries, rfl⟩ := Run.onDatabase_eq_error.mp hanswer
        exact (Ledger.seen_of_entries h).2 _ hentries
  · intro τ e τ' hattempt
    exact absurd hattempt Run.attempt_ne_error
  · split
    · exact Run.Looks.pure _
    · split
      · exact Run.Looks.pure _
      · exact Run.Looks.throw _
    · exact Run.Looks.throw _

/-- The answer is what the ledger holds of the app. -/
theorem entries_ok (h : migrator.backend.Reliable effect view) (hdry : migrator.dryRun = false)
    {records : List LedgerEntry} (hok : migrator.entries app τ = .ok records τ') :
    records = (view τ.database).ledger.filter (·.app == app) ∧
      view τ'.database = view τ.database := by
  refine ⟨?_, (looks_entries h.unmoved).ok _ _ _ hok⟩
  obtain ⟨answer, τ₁, hattempt, hok⟩ := bind_eq_ok.mp hok
  have hanswer := Run.attempt_eq_ok.mp hattempt
  split at hok
  · obtain ⟨rfl, rfl⟩ := pure_eq_ok.mp hok
    obtain ⟨t, hentries, rfl⟩ := Run.onDatabase_eq_ok.mp hanswer
    exact (Ledger.entries_ok h hentries).1
  · rw [if_neg (by rw [hdry]; simp)] at hok
    exact absurd hok throw_ne_ok
  · exact absurd hok throw_ne_ok

/-- The error blames no migration but the named one. -/
def BlamesOnly (name : String) (e : MigrationError) : Prop :=
  ∀ other, e.migration? = some other → other = name

theorem blamesOnly_during {cause : MigrationError} : BlamesOnly name (.during app name cause) := by
  intro other h
  cases h
  rfl

/-- A ledger that cannot be read is blamed on no migration. -/
theorem entries_error (hdry : migrator.dryRun = false)
    (herror : migrator.entries app τ = .error e τ') : e.migration? = none := by
  rcases bind_eq_error.mp herror with herror | ⟨answer, τ₁, hattempt, herror⟩
  · exact absurd herror Run.attempt_ne_error
  have hanswer := Run.attempt_eq_ok.mp hattempt
  split at herror
  · exact absurd herror pure_ne_error
  · rw [if_neg (by rw [hdry]; simp)] at herror
    obtain ⟨rfl, -⟩ := throw_eq_error.mp herror
    rfl
  · next hother =>
      obtain ⟨rfl, -⟩ := throw_eq_error.mp herror
      obtain ⟨t, hentries, -⟩ := Run.onDatabase_eq_error.mp hanswer
      rcases bind_eq_error.mp hentries with hselect | ⟨rows, u, -, hpure⟩
      · obtain ⟨cause, -, hledger⟩ := adaptExcept_eq_error.mp hselect
        exact absurd hledger (hother cause)
      · exact absurd hpure pure_ne_error

section Looks

variable {ω : Type} {seen : σ → ω} (h : migrator.backend.Unmoved seen)

include h

theorem looks_hasApplied : Run.Looks seen (migrator.hasApplied app name) :=
  (looks_entries h).bind fun _ => Run.Looks.pure _

/-- One of the things that are required. -/
theorem looks_requirement (applied : List String) (needed : String × String) : Run.Looks seen (do
      if needed.1 == migration.app && applied.contains needed.2 then return
      if !(← migrator.hasApplied needed.1 needed.2) then
        throw (.missingDependency migration.app migration.name needed.1 needed.2)) := by
  split
  · exact Run.Looks.pure ()
  · refine (looks_hasApplied h).bind fun found => ?_
    split
    · exact Run.Looks.throw _
    · exact Run.Looks.pure ()

theorem looks_requireApplied (applied : List String) :
    Run.Looks seen (migrator.requireApplied migration applied) :=
  Run.Looks.forM (looks_requirement h applied)

end Looks

/-- Either the ledger cannot be read, which is no migration's fault, or something that the migration
requires is missing. -/
theorem requireApplied_eq_error (hdry : migrator.dryRun = false) {applied : List String}
    (herror : migrator.requireApplied migration applied τ = .error e τ') :
    e.migration? = none ∨
      ∃ app name, e = .missingDependency migration.app migration.name app name := by
  obtain ⟨⟨app, name⟩, -, τ₁, herror⟩ := exists_of_forM_eq_error herror
  dsimp only at herror
  split at herror
  · exact absurd herror pure_ne_error
  · rcases bind_eq_error.mp herror with herror | ⟨found, τ₂, -, herror⟩
    · rcases bind_eq_error.mp herror with herror | ⟨records, τ₂, -, herror⟩
      · exact .inl (entries_error hdry herror)
      · exact absurd herror pure_ne_error
    · split at herror
      · exact .inr ⟨app, name, (throw_eq_error.mp herror).1.symm⟩
      · exact absurd herror pure_ne_error

/-- What the check of dependencies finds wrong is blamed on the migration that needs them. -/
theorem requireApplied_error (hdry : migrator.dryRun = false) {applied : List String}
    (herror : migrator.requireApplied migration applied τ = .error e τ') :
    BlamesOnly migration.name e := by
  intro other hother
  rcases requireApplied_eq_error hdry herror with hnone | ⟨app, name, rfl⟩
  · cases hnone.symm.trans hother
  · cases hother
    rfl

/-- A migration is refused since it belongs to another app, or it fails at work. -/
theorem next_eq_error (h : state.next migration = .error e) :
    (∃ app fault, e = .inconsistent app fault) ∨
      ∃ cause, e = .during migration.app migration.name cause := by
  have hadvance : ∃ t, AppSchema.advance migration state = .error e t := by
    unfold AppSchema.next Change.outcome at h
    cases hadvance : AppSchema.advance migration state with
    | ok a t =>
        rw [hadvance] at h
        cases h
    | error e' t =>
        rw [hadvance] at h
        cases h
        exact ⟨t, rfl⟩
  obtain ⟨t, hadvance⟩ := hadvance
  rcases bind_eq_error.mp hadvance with hget | ⟨s, s₁, -, hadvance⟩
  · cases hget
  split at hadvance
  · -- a migration of another app is refused before it is at work
    rcases bind_eq_error.mp hadvance with hget | ⟨s, s₁, -, hadvance⟩
    · cases hget
    rcases bind_eq_error.mp hadvance with hthrow | ⟨⟨⟩, s₂, hthrow, -⟩
    · obtain ⟨rfl, -⟩ := throw_eq_error.mp hthrow
      exact Or.inl ⟨_, _, rfl⟩
    · exact absurd hthrow throw_ne_ok
  · rcases bind_eq_error.mp hadvance with hloop | ⟨⟨⟩, s₂, -, hmodify⟩
    · obtain ⟨operation, -, s₂, happly⟩ := exists_of_forM_eq_error hloop
      obtain ⟨cause, -, rfl⟩ := adaptExcept_eq_error.mp happly
      exact Or.inr ⟨cause, rfl⟩
    · cases hmodify

theorem next_error (h : state.next migration = .error e) : BlamesOnly migration.name e := by
  rcases next_eq_error h with ⟨app, fault, rfl⟩ | ⟨cause, rfl⟩
  · exact fun _ => nofun
  · exact blamesOnly_during

/-! ### One migration -/

/-- The work of applying a migration does not begin or end a transaction of its own. -/
theorem steady_apply (h : migrator.backend.Reliable effect view) (steps : Migration.Steps) :
    Work.Steady view (do
      Migration.forwardAll migrator.backend steps
      migrator.record migration) :=
  (Work.Steady.of_scripted h (Scripted.forwardAll steps)).bind (Work.Steady.enter h _ _ _)

theorem steady_revert (h : migrator.backend.Reliable effect view)
    (hstrikes : migrator.backend.Strikes view migration.app migration.name)
    (steps : Migration.Steps) :
    Work.Steady view (do
      Migration.backwardAll migrator.backend steps
      Ledger.strike migrator.backend migration.app migration.name) :=
  (Work.Steady.of_scripted h (Scripted.backwardAll steps)).bind (Work.Steady.strike h hstrikes)

/-- A migration of the app whose steps can be taken leads to a next state. -/
theorem next_of_steps {steps : List AppSchema.Step} (happ : migration.app = state.app)
    (h : state.steps migration = .ok steps) : ∃ next, state.next migration = .ok next := by
  obtain ⟨u, hpath, hmap⟩ := AppSchema.path_of_stepsOf h
  exact ⟨_, AppSchema.next_of_path happ hpath hmap⟩

theorem database_of_report {level : Level} {text : String} {details : List (String × String)}
    (hok : Run.report level text migration details τ = .ok () τ') : τ'.database = τ.database := by
  cases hok
  rfl

/-- Where a migration has been carried out operation by operation, all of them are complete. -/
theorem applyStepwise_ok {steps : Migration.Steps}
    (hok : migrator.applyStepwise migration steps τ = .ok () τ') :
    ∃ t, Migration.forwardAll migrator.backend steps τ.database = .ok () t ∧
      migrator.record migration t = .ok () τ'.database := by
  obtain ⟨⟨completed, failure⟩, τ₁, hforward, hok⟩ := bind_eq_ok.mp hok
  obtain ⟨t, hcompleted, rfl⟩ := Run.onDatabase_eq_ok.mp hforward
  cases Migration.forwardCompleted_eq_ok hcompleted with
  | all hall =>
      obtain ⟨u, hrecord, rfl⟩ := Run.onDatabase_eq_ok.mp hok
      exact ⟨t, hall, hrecord⟩
  | failed =>
      obtain ⟨⟨⟩, τ₂, -, hthrow⟩ := bind_eq_ok.mp hok
      exact absurd hthrow throw_ne_ok

/-- What the operations of a migration and its record make of the view. -/
theorem view_of_work (h : migrator.backend.Reliable effect view)
    {steps : List AppSchema.Step} {s t u : σ}
    (hsteps : state.steps migration = .ok steps)
    (hforward : Migration.forwardAll migrator.backend (migration.withSteps steps) s = .ok () t)
    (hrecord : migrator.record migration t = .ok () u) :
    ∃ statements contents entry,
      migration.script migrator.backend.dialect migrator.backend.now state false = .ok statements ∧
      Backend.Reliable.effects effect statements (view s).contents = some contents ∧
      Ledger.Records migration.app migration.name migration.number entry ∧
      view u = { view s with contents, ledger := (view s).ledger ++ [entry] } := by
  obtain ⟨statements, hrecording, hchange, hruns⟩ :=
    Migration.recording_of_ok (Scripted.forwardAll _) hforward
  obtain ⟨contents, heffects, hview⟩ := h.view_of_runs hruns hchange
  obtain ⟨entry, hentry, hview'⟩ := Ledger.enter_ok h hrecord
  refine ⟨statements, contents, entry, ?_, heffects, hentry, ?_⟩
  · unfold Migration.script
    rw [hsteps]
    exact hrecording
  · rw [hview', hview]

/-- Once its work is done, a migration leads to the next state. -/
theorem next_of_end
    (hok : (do
      let state ← Run.ofExcept (state.next migration)
      Run.report .info "Migration applied successfully" migration []
      return state : Run σ AppSchema) τ = .ok state' τ') :
    state.next migration = .ok state' ∧ τ'.database = τ.database := by
  obtain ⟨next, τ₁, hanswer, hok⟩ := bind_eq_ok.mp hok
  obtain ⟨hnext, rfl⟩ := Run.ofExcept_eq_ok.mp hanswer
  obtain ⟨⟨⟩, τ₂, hreport, hok⟩ := bind_eq_ok.mp hok
  obtain ⟨rfl, rfl⟩ := pure_eq_ok.mp hok
  exact ⟨hnext, database_of_report hreport⟩

/-- A migration that is performed has been carried out and recorded, in a transaction or without. -/
theorem perform_carries (h : migrator.backend.Reliable effect view) (hdry : migrator.dryRun = false)
    (hclosed : (view τ.database).saved = none)
    (hok : migrator.perform state migration τ = .ok state' τ') :
    state.next migration = .ok state' ∧ ∃ statements contents entry,
      migration.script migrator.backend.dialect migrator.backend.now state false = .ok statements ∧
      Backend.Reliable.effects effect statements (view τ.database).contents = some contents ∧
      Ledger.Records migration.app migration.name migration.number entry ∧
      view τ'.database = ⟨contents, (view τ.database).ledger ++ [entry], none,
        (view τ.database).commits
          + if migrator.backend.dialect.capabilities.transactional then 1 else 0⟩ := by
  obtain ⟨⟨⟩, τ₁, hreport, hok⟩ := bind_eq_ok.mp hok
  obtain ⟨steps, τ₂, hanswer, hok⟩ := bind_eq_ok.mp hok
  obtain ⟨hsteps, rfl⟩ := Run.ofExcept_eq_ok.mp hanswer
  rw [if_neg (by rw [hdry]; simp)] at hok
  rw [← database_of_report hreport] at hclosed ⊢
  by_cases htransactional : migrator.backend.dialect.capabilities.transactional = true
  · rw [if_pos htransactional] at hok ⊢
    obtain ⟨⟨⟩, τ₂, hwork, hok⟩ := bind_eq_ok.mp hok
    obtain ⟨hnext, hdatabase⟩ := next_of_end hok
    obtain ⟨s, t, hopened, hwork, hkept⟩ := inTransaction_ok h (steady_apply h _) hclosed hwork
    obtain ⟨⟨⟩, u, hforward, hrecord⟩ := bind_eq_ok.mp hwork
    obtain ⟨statements, contents, entry, hscript, heffects, hentry, hview⟩ :=
      view_of_work h hsteps hforward hrecord
    rw [hopened] at heffects hview
    refine ⟨hnext, statements, contents, entry, hscript, heffects, hentry, ?_⟩
    rw [hdatabase, hkept, hview]
    rfl
  · rw [if_neg htransactional] at hok ⊢
    obtain ⟨⟨⟩, τ₂, hwork, hok⟩ := bind_eq_ok.mp hok
    obtain ⟨hnext, hdatabase⟩ := next_of_end hok
    obtain ⟨u, hforward, hrecord⟩ := applyStepwise_ok hwork
    obtain ⟨statements, contents, entry, hscript, heffects, hentry, hview⟩ :=
      view_of_work h hsteps hforward hrecord
    refine ⟨hnext, statements, contents, entry, hscript, heffects, hentry, ?_⟩
    rw [hdatabase, hview]
    simp only [hclosed]
    rfl

/-- A migration that is carried out has run its script, has its row and is committed. -/
theorem perform_ok (h : migrator.backend.Reliable effect view) (hdry : migrator.dryRun = false)
    (htransactional : migrator.backend.dialect.capabilities.transactional = true)
    (hclosed : (view τ.database).saved = none)
    (hok : migrator.perform state migration τ = .ok state' τ') :
    state.next migration = .ok state' ∧ ∃ statements contents entry,
      migration.script migrator.backend.dialect migrator.backend.now state false = .ok statements ∧
      Backend.Reliable.effects effect statements (view τ.database).contents = some contents ∧
      Ledger.Records migration.app migration.name migration.number entry ∧
      view τ'.database = ⟨contents, (view τ.database).ledger ++ [entry], none,
        (view τ.database).commits + 1⟩ := by
  have hcarries := perform_carries h hdry hclosed hok
  rwa [if_pos htransactional] at hcarries

theorem perform_error (h : migrator.backend.Reliable effect view) (hdry : migrator.dryRun = false)
    (htransactional : migrator.backend.dialect.capabilities.transactional = true)
    (hclosed : (view τ.database).saved = none) (happ : migration.app = state.app)
    (herror : migrator.perform state migration τ = .error e τ') :
    view τ'.database = view τ.database := by
  rcases bind_eq_error.mp herror with hreport | ⟨⟨⟩, τ₁, hreport, herror⟩
  · cases hreport
  rw [← database_of_report hreport] at hclosed ⊢
  rcases bind_eq_error.mp herror with hanswer | ⟨steps, τ₂, hanswer, herror⟩
  · rw [(Run.ofExcept_eq_error.mp hanswer).2]
  obtain ⟨hsteps, rfl⟩ := Run.ofExcept_eq_ok.mp hanswer
  rw [if_neg (by rw [hdry]; simp), if_pos htransactional] at herror
  rcases bind_eq_error.mp herror with htransaction | ⟨⟨⟩, τ₂, -, herror⟩
  · exact inTransaction_error h (steady_apply h _) hclosed htransaction
  -- What has been kept is not followed by a failure: the steps lead to a next state.
  obtain ⟨next, hnext⟩ := next_of_steps happ hsteps
  rcases bind_eq_error.mp herror with hanswer' | ⟨state', τ₃, -, herror⟩
  · rw [hnext] at hanswer'
    exact absurd hanswer' pure_ne_error
  · rcases bind_eq_error.mp herror with hreport' | ⟨⟨⟩, τ₄, -, hpure⟩
    · cases hreport'
    · exact absurd hpure pure_ne_error

/-- A migration that is undone has run its script, has lost its row and is committed. -/
theorem revert_ok (h : migrator.backend.Reliable effect view) (hdry : migrator.dryRun = false)
    (htransactional : migrator.backend.dialect.capabilities.transactional = true)
    (hstrikes : migrator.backend.Strikes view migration.app migration.name)
    (hclosed : (view τ.database).saved = none) {steps : Migration.Steps}
    (hok : migrator.revert migration steps τ = .ok () τ') :
    ∃ statements contents,
      Migration.recording migrator.backend.dialect migrator.backend.now
        (fun backend => Migration.backwardAll backend steps) = .ok statements ∧
      Backend.Reliable.effects effect statements (view τ.database).contents = some contents ∧
      view τ'.database = ⟨contents,
        (view τ.database).ledger.filter fun entry =>
          !entry.isFor migration.app migration.name, none,
        (view τ.database).commits + 1⟩ := by
  obtain ⟨⟨⟩, τ₁, hreport, hok⟩ := bind_eq_ok.mp hok
  rw [if_neg (by rw [hdry]; simp), if_pos htransactional] at hok
  obtain ⟨⟨⟩, τ₂, htransaction, hreport'⟩ := bind_eq_ok.mp hok
  rw [database_of_report hreport']
  rw [← database_of_report hreport] at hclosed ⊢
  obtain ⟨s, t, hopened, hwork, hkept⟩ :=
    inTransaction_ok h (steady_revert h hstrikes _) hclosed htransaction
  obtain ⟨⟨⟩, u, hbackward, hstrike⟩ := bind_eq_ok.mp hwork
  obtain ⟨statements, hrecording, hchange, hruns⟩ :=
    Migration.recording_of_ok (Scripted.backwardAll _) hbackward
  obtain ⟨contents, heffects, hview⟩ := h.view_of_runs hruns hchange
  refine ⟨statements, contents, hrecording, ?_, ?_⟩
  · rw [hopened] at heffects
    exact heffects
  · rw [hkept, Ledger.strike_ok hstrikes hstrike, hview, hopened]
    rfl

theorem revert_error (h : migrator.backend.Reliable effect view) (hdry : migrator.dryRun = false)
    (htransactional : migrator.backend.dialect.capabilities.transactional = true)
    (hstrikes : migrator.backend.Strikes view migration.app migration.name)
    (hclosed : (view τ.database).saved = none) {steps : Migration.Steps}
    (herror : migrator.revert migration steps τ = .error e τ') :
    view τ'.database = view τ.database := by
  rcases bind_eq_error.mp herror with hreport | ⟨⟨⟩, τ₁, hreport, herror⟩
  · cases hreport
  rw [← database_of_report hreport] at hclosed ⊢
  rw [if_neg (by rw [hdry]; simp), if_pos htransactional] at herror
  rcases bind_eq_error.mp herror with htransaction | ⟨⟨⟩, τ₂, -, hreport'⟩
  · exact inTransaction_error h (steady_revert h hstrikes _) hclosed htransaction
  · cases hreport'

/-! ### One migration after the other -/

/-- What the migrator needs to know of the list that it works through: where in the order of all
migrations of the app it begins, and the state that those before have led to. -/
structure Ahead (app : String) (ordered : List Migration) (state : AppSchema)
    (rest : List Migration) :
    Prop where
  place : ∃ earlier later, ordered = earlier ++ (rest ++ later) ∧
    AppSchema.replay app earlier = .ok state
  ascending : ordered.Pairwise (·.name < ·.name)
  app_eq : ∀ migration ∈ ordered, migration.app = app

section Ahead

variable {ordered rest : List Migration}

theorem Ahead.state_app_eq (h : Ahead app ordered state rest) : state.app = app := by
  obtain ⟨earlier, later, -, hreplay⟩ := h.place
  exact AppSchema.app_eq_of_replay hreplay

theorem Ahead.mem (h : Ahead app ordered state rest) (hmem : migration ∈ rest) :
    migration ∈ ordered := by
  obtain ⟨earlier, later, rfl, -⟩ := h.place
  exact List.mem_append_right _ (List.mem_append_left _ hmem)

/-- After a migration the rest is ahead of the next state. -/
theorem Ahead.tail (h : Ahead app ordered state (migration :: rest))
    (hnext : state.next migration = .ok state') : Ahead app ordered state' rest := by
  obtain ⟨earlier, later, hordered, hreplay⟩ := h.place
  refine ⟨⟨earlier ++ [migration], later, ?_, ?_⟩, h.ascending, h.app_eq⟩
  · rw [hordered, List.append_assoc, List.singleton_append, List.cons_append]
  · exact AppSchema.replay_append_singleton.mpr ⟨state, hreplay, hnext⟩

theorem Ahead.name_lt (h : Ahead app ordered state (migration :: rest)) {other : Migration}
    (hmem : other ∈ rest) : migration.name < other.name := by
  obtain ⟨earlier, later, rfl, -⟩ := h.place
  have hrest := (List.pairwise_append.mp h.ascending).2.1
  rw [List.cons_append] at hrest
  exact List.rel_of_pairwise_cons hrest (List.mem_append_left _ hmem)

/-- The script of the migration at hand is the one that it has in its order. -/
theorem Ahead.hasScript (h : Ahead app ordered state (migration :: rest)) {dialect : Dialect}
    {now : DateTime} {reverse : Bool} {statements : List Statement}
    (hscript : migration.script dialect now state reverse = .ok statements) :
    migration.HasScript dialect now app reverse ordered statements := by
  obtain ⟨earlier, later, hordered, hreplay⟩ := h.place
  exact ⟨earlier, rest ++ later, state, hordered, hreplay, hscript⟩

end Ahead

/-! ### A list that is applied -/

section ApplyAll

/-- What becomes of the first migration of a list that is applied. One that is recorded is skipped,
if the state can go on with it. Another one is applied, if what it depends on is there and it does
not fail. Where it goes on, the rest of the list gives the answer. -/
inductive AppliesFirst (migrator : Migrator σ) (recorded : List String) (state : AppSchema)
    (done : List String) (migration : Migration) (rest : List Migration) (τ : Transcript σ) :
    Except MigrationError (List String) → Transcript σ → Prop where
  | skipped {next : AppSchema} {τ₁ τ' : Transcript σ}
    {answer : Except MigrationError (List String)} :
      recorded.contains migration.name = true → state.next migration = .ok next →
      τ₁.database = τ.database →
      migrator.applyAll recorded next done rest τ₁ = Backend.answered answer τ' →
      AppliesFirst migrator recorded state done migration rest τ answer τ'
  | refused {e : MigrationError} {τ' : Transcript σ} :
      recorded.contains migration.name = true → state.next migration = .error e →
      τ'.database = τ.database →
      AppliesFirst migrator recorded state done migration rest τ (.error e) τ'
  | missing {e : MigrationError} {τ' : Transcript σ} :
      ¬recorded.contains migration.name = true →
      migrator.requireApplied migration done τ = .error e τ' →
      AppliesFirst migrator recorded state done migration rest τ (.error e) τ'
  | failed {cause : MigrationError} {τ₁ τ' : Transcript σ} :
      ¬recorded.contains migration.name = true →
      migrator.requireApplied migration done τ = .ok () τ₁ →
      migrator.perform state migration τ₁ = .error cause τ' →
      AppliesFirst migrator recorded state done migration rest τ
        (.error (.during migration.app migration.name cause)) τ'
  | applied {next : AppSchema} {τ₁ τ₂ τ' : Transcript σ}
    {answer : Except MigrationError (List String)} :
      ¬recorded.contains migration.name = true →
      migrator.requireApplied migration done τ = .ok () τ₁ →
      migrator.perform state migration τ₁ = .ok next τ₂ →
      migrator.applyAll recorded next (done ++ [migration.name]) rest τ₂
        = Backend.answered answer τ' →
      AppliesFirst migrator recorded state done migration rest τ answer τ'

variable {ordered rest : List Migration} {recorded done : List String}

/-- The first migration of the list is passed over, carried out or the one that fails. -/
theorem appliesFirst {answer : Except MigrationError (List String)}
    (hrun : migrator.applyAll recorded state done (migration :: rest) τ
      = Backend.answered answer τ') :
    AppliesFirst migrator recorded state done migration rest τ answer τ' := by
  unfold applyAll at hrun
  by_cases hrecorded : recorded.contains migration.name = true
  · rw [if_pos hrecorded] at hrun
    rcases bind_eq_answered.mp hrun with ⟨⟨⟩, τ₁, hreport, hrun⟩ | ⟨e, -, hreport⟩
    · rcases bind_eq_answered.mp hrun with ⟨next, τ₂, hanswer, hrest⟩ | ⟨e, rfl, hanswer⟩
      · obtain ⟨hnext, rfl⟩ := Run.ofExcept_eq_ok.mp hanswer
        exact .skipped hrecorded hnext (database_of_report hreport) hrest
      · obtain ⟨hnext, rfl⟩ := Run.ofExcept_eq_error.mp hanswer
        exact .refused hrecorded hnext (database_of_report hreport)
    · cases hreport
  · rw [if_neg hrecorded] at hrun
    rcases bind_eq_answered.mp hrun with ⟨⟨⟩, τ₁, hrequired, hrun⟩ | ⟨e, rfl, hrequired⟩
    · rcases bind_eq_answered.mp hrun with ⟨next, τ₂, hperform, hrest⟩ | ⟨e, rfl, hperform⟩
      · exact .applied hrecorded hrequired (adaptExcept_eq_ok.mp hperform) hrest
      · obtain ⟨cause, hfailed, rfl⟩ := adaptExcept_eq_error.mp hperform
        exact .failed hrecorded hrequired hfailed
    · exact .missing hrecorded hrequired

theorem appliesFirst_of_ok {names : List String}
    (hok : migrator.applyAll recorded state done (migration :: rest) τ = .ok names τ') :
    AppliesFirst migrator recorded state done migration rest τ (.ok names) τ' :=
  appliesFirst hok

theorem appliesFirst_of_error
    (herror : migrator.applyAll recorded state done (migration :: rest) τ = .error e τ') :
    AppliesFirst migrator recorded state done migration rest τ (.error e) τ' :=
  appliesFirst herror

/-- A run that succeeds has carried out everything that is not recorded, by induction on the
list. -/
theorem applyAll_ok (h : migrator.backend.Reliable effect view) (hdry : migrator.dryRun = false)
    (htransactional : migrator.backend.dialect.capabilities.transactional = true)
    (hahead : Ahead app ordered state rest) (hclosed : (view τ.database).saved = none)
    {names : List String} (hok : migrator.applyAll recorded state done rest τ = .ok names τ') :
    View.Advanced effect
      (Migration.HasScript migrator.backend.dialect migrator.backend.now app false ordered)
      (rest.filter fun migration => !recorded.contains migration.name)
      (view τ.database) (view τ'.database) ∧
    names = done
      ++ (rest.filter fun migration => !recorded.contains migration.name).map (·.name) := by
  induction rest generalizing state done τ with
  | nil =>
      obtain ⟨rfl, rfl⟩ := pure_eq_ok.mp hok
      exact ⟨View.Advanced.nil hclosed, (List.append_nil _).symm⟩
  | cons migration rest ih =>
      cases appliesFirst_of_ok hok with
      | skipped hrecorded hnext hsame hrest =>
          -- only the state moves on
          rw [← hsame] at hclosed ⊢
          rw [List.filter_cons_of_neg (by rw [hrecorded]; simp)]
          exact ih (hahead.tail hnext) hclosed hrest
      | applied hrecorded hrequired hperform hrest =>
          rw [← (looks_requireApplied h.unmoved _).ok _ _ _ hrequired] at hclosed ⊢
          obtain ⟨hnext, statements, contents, entry, hscript, heffects, hentry, hview⟩ :=
            perform_ok h hdry htransactional hclosed hperform
          obtain ⟨hadvanced, hnames⟩ := ih (hahead.tail hnext) (by rw [hview]) hrest
          rw [List.filter_cons_of_pos (by simpa using hrecorded)]
          refine ⟨.cons (hahead.hasScript hscript) heffects hentry hview hadvanced, ?_⟩
          rw [hnames, List.append_assoc, List.singleton_append, List.map_cons]

/-- Where applying succeeds, the migrations that are not recorded have been carried out, in
transactions or without. -/
theorem applyAll_carries (h : migrator.backend.Reliable effect view)
    (hdry : migrator.dryRun = false)
    (hahead : Ahead app ordered state rest) (hclosed : (view τ.database).saved = none)
    {names : List String} (hok : migrator.applyAll recorded state done rest τ = .ok names τ') :
    Migration.Carried effect
      (Migration.HasScript migrator.backend.dialect migrator.backend.now app false ordered)
      (rest.filter fun migration => !recorded.contains migration.name)
      (view τ.database).contents (view τ'.database).contents := by
  induction rest generalizing state done τ with
  | nil =>
      obtain ⟨-, rfl⟩ := pure_eq_ok.mp hok
      exact .nil _
  | cons migration rest ih =>
      cases appliesFirst_of_ok hok with
      | skipped hrecorded hnext hsame hrest =>
          rw [← hsame] at hclosed ⊢
          rw [List.filter_cons_of_neg (by rw [hrecorded]; simp)]
          exact ih (hahead.tail hnext) hclosed hrest
      | applied hrecorded hrequired hperform hrest =>
          rw [← (looks_requireApplied h.unmoved _).ok _ _ _ hrequired] at hclosed ⊢
          obtain ⟨hnext, statements, contents, entry, hscript, heffects, -, hview⟩ :=
            perform_carries h hdry hclosed hperform
          have hcarried := ih (hahead.tail hnext) (by rw [hview]) hrest
          rw [hview] at hcarried
          rw [List.filter_cons_of_pos (by simpa using hrecorded)]
          exact .cons (hahead.hasScript hscript) heffects hcarried

/-- Wherever applying fails, some of the first migrations that are not recorded have been applied,
and no other. -/
theorem applyAll_error (h : migrator.backend.Reliable effect view) (hdry : migrator.dryRun = false)
    (htransactional : migrator.backend.dialect.capabilities.transactional = true)
    (hahead : Ahead app ordered state rest) (hclosed : (view τ.database).saved = none)
    (herror : migrator.applyAll recorded state done rest τ = .error e τ') :
    ∃ applied left,
      (rest.filter fun migration => !recorded.contains migration.name) = applied ++ left ∧
      View.Advanced effect
        (Migration.HasScript migrator.backend.dialect migrator.backend.now app false
          ordered) applied
        (view τ.database) (view τ'.database) ∧
      ∀ name, e.migration? = some name →
        name ∈ rest.map (·.name) ∧ ∀ migration ∈ applied, migration.name < name := by
  induction rest generalizing state done τ with
  | nil => exact absurd herror pure_ne_error
  | cons migration rest ih =>
      -- a failure that is over this migration comes before anything is applied
      have hhere : view τ'.database = view τ.database → BlamesOnly migration.name e →
          ∃ applied left, ((migration :: rest).filter fun migration =>
              !recorded.contains migration.name) = applied ++ left ∧
            View.Advanced effect
              (Migration.HasScript migrator.backend.dialect migrator.backend.now app false ordered)
              applied (view τ.database) (view τ'.database) ∧
            ∀ name, e.migration? = some name → name ∈ (migration :: rest).map (·.name) ∧
              ∀ migration ∈ applied, migration.name < name := by
        intro hsame hblames
        rw [hsame]
        refine ⟨[], _, rfl, View.Advanced.nil hclosed, fun name hname => ⟨?_, nofun⟩⟩
        rw [hblames name hname]
        exact List.mem_cons_self
      cases appliesFirst_of_error herror with
      | skipped hrecorded hnext hsame hrest =>
          rw [← hsame] at hclosed ⊢
          obtain ⟨applied, left, hpending, hadvanced, hblames⟩ :=
            ih (hahead.tail hnext) hclosed hrest
          refine ⟨applied, left, ?_, hadvanced, fun name hname => ?_⟩
          · rw [List.filter_cons_of_neg (by rw [hrecorded]; simp), hpending]
          · obtain ⟨hmem, hbefore⟩ := hblames name hname
            exact ⟨List.mem_cons_of_mem _ hmem, hbefore⟩
      | refused _ hnext hsame => exact hhere (by rw [hsame]) (next_error hnext)
      | missing _ hrequired =>
          exact hhere ((looks_requireApplied h.unmoved _).error _ _ _ hrequired)
            (requireApplied_error hdry hrequired)
      | failed _ hrequired hfailed =>
          have hsame := (looks_requireApplied h.unmoved _).ok _ _ _ hrequired
          have happ : migration.app = state.app := by
            rw [hahead.state_app_eq, hahead.app_eq _ (hahead.mem List.mem_cons_self)]
          rw [← hsame] at hclosed
          exact hhere ((perform_error h hdry htransactional hclosed happ hfailed).trans hsame)
            blamesOnly_during
      | applied hrecorded hrequired hperform hrest =>
          rw [← (looks_requireApplied h.unmoved _).ok _ _ _ hrequired] at hclosed ⊢
          obtain ⟨hnext, statements, contents, entry, hscript, heffects, hentry, hview⟩ :=
            perform_ok h hdry htransactional hclosed hperform
          obtain ⟨applied, left, hpending, hadvanced, hblames⟩ :=
            ih (hahead.tail hnext) (by rw [hview]) hrest
          refine ⟨migration :: applied, left, ?_,
            .cons (hahead.hasScript hscript) heffects hentry hview hadvanced, fun name hname => ?_⟩
          · rw [List.filter_cons_of_pos (by simpa using hrecorded), hpending, List.cons_append]
          · obtain ⟨hmem, hbefore⟩ := hblames name hname
            obtain ⟨other, hother, rfl⟩ := List.mem_map.mp hmem
            exact ⟨List.mem_cons_of_mem _ hmem,
              List.forall_mem_cons.mpr ⟨hahead.name_lt hother, hbefore⟩⟩

end ApplyAll

/-! ### A list that is undone -/

section RevertAll

variable {ordered rest : List Migration} {undo : List (Migration × Migration.Steps)}
  {target : String}
  {hasScript : Migration → List Statement → Prop}

/-- What is undone is what is above the target. -/
theorem map_undoList (hok : undoList target state rest = .ok undo) :
    undo.map (·.1) = rest.filter fun migration => target < migration.number := by
  induction rest generalizing state undo with
  | nil =>
      cases hok
      rfl
  | cons migration rest ih =>
      obtain ⟨steps, -, hok⟩ := Except.bind_eq_ok.mp hok
      obtain ⟨next, -, hok⟩ := Except.bind_eq_ok.mp hok
      obtain ⟨later, hlater, hok⟩ := Except.bind_eq_ok.mp hok
      rw [List.filter_cons]
      by_cases habove : target < migration.number
      · rw [if_pos habove] at hok
        cases hok
        rw [if_pos (by simpa using habove), List.map_cons, ih hlater]
      · rw [if_neg habove] at hok
        cases hok
        rw [if_neg (by simpa using habove), ih hlater]

/-- The steps in the list are those that the migrations before have led up to. -/
theorem hasScript_of_undoList (hahead : Ahead app ordered state rest)
    (hok : undoList target state rest = .ok undo) {entry : Migration × Migration.Steps}
    (hentry : entry ∈ undo) {dialect : Dialect} {now : DateTime} {statements : List Statement}
    (hrecording : Migration.recording dialect now
      (fun backend => Migration.backwardAll backend entry.2) = .ok statements) :
    entry.1.HasScript dialect now app true ordered statements := by
  induction rest generalizing state undo with
  | nil =>
      cases hok
      cases hentry
  | cons migration rest ih =>
      obtain ⟨steps, hsteps, hok⟩ := Except.bind_eq_ok.mp hok
      obtain ⟨next, hnext, hok⟩ := Except.bind_eq_ok.mp hok
      obtain ⟨later, hlater, hok⟩ := Except.bind_eq_ok.mp hok
      by_cases habove : target < migration.number
      · rw [if_pos habove] at hok
        cases hok
        rcases List.mem_cons.mp hentry with rfl | hentry
        · refine hahead.hasScript ?_
          unfold Migration.script
          rw [Except.mapError_eq_ok.mp hsteps]
          exact hrecording
        · exact ih (hahead.tail hnext) hlater hentry
      · rw [if_neg habove] at hok
        cases hok
        exact ih (hahead.tail hnext) hlater hentry

/-- Undoing a list that succeeds has undone all of it, by induction on the list. -/
theorem revertAll_ok (h : migrator.backend.Reliable effect view) (hdry : migrator.dryRun = false)
    (htransactional : migrator.backend.dialect.capabilities.transactional = true)
    (hstrikes : ∀ entry ∈ undo, migrator.backend.Strikes view entry.1.app entry.1.name)
    (hscripts : ∀ entry ∈ undo, ∀ statements,
      Migration.recording migrator.backend.dialect migrator.backend.now
        (fun backend => Migration.backwardAll backend entry.2) = .ok statements →
      hasScript entry.1 statements)
    (hclosed : (view τ.database).saved = none) (hok : migrator.revertAll undo τ = .ok () τ') :
    View.Receded effect hasScript (undo.map (·.1)) (view τ.database) (view τ'.database) := by
  induction undo generalizing τ with
  | nil =>
      obtain ⟨-, rfl⟩ := pure_eq_ok.mp hok
      exact View.Receded.nil hclosed
  | cons entry rest ih =>
      obtain ⟨migration, steps⟩ := entry
      obtain ⟨⟨⟩, τ₁, hrevert, hok⟩ := bind_eq_ok.mp hok
      obtain ⟨hscript, hrest⟩ := List.forall_mem_cons.mp hscripts
      obtain ⟨hstrike, hstrikes⟩ := List.forall_mem_cons.mp hstrikes
      obtain ⟨statements, contents, hrecording, heffects, hview⟩ :=
        revert_ok h hdry htransactional hstrike hclosed (adaptExcept_eq_ok.mp hrevert)
      have hbetween : (view τ₁.database).saved = none := by rw [hview]
      exact .cons (hscript statements hrecording) heffects hview (ih hstrikes hrest hbetween hok)

/-- Wherever undoing fails, some of the first migrations of the list have been undone, and no other;
the one that failed is the next. -/
theorem revertAll_error (h : migrator.backend.Reliable effect view) (hdry : migrator.dryRun = false)
    (htransactional : migrator.backend.dialect.capabilities.transactional = true)
    (hstrikes : ∀ entry ∈ undo, migrator.backend.Strikes view entry.1.app entry.1.name)
    (hscripts : ∀ entry ∈ undo, ∀ statements,
      Migration.recording migrator.backend.dialect migrator.backend.now
        (fun backend => Migration.backwardAll backend entry.2) = .ok statements →
      hasScript entry.1 statements)
    (hclosed : (view τ.database).saved = none) (herror : migrator.revertAll undo τ = .error e τ') :
    ∃ undone failed left, undo.map (·.1) = undone ++ failed :: left ∧
      View.Receded effect hasScript undone (view τ.database) (view τ'.database) ∧
      e.migration? = some failed.name := by
  induction undo generalizing τ with
  | nil => exact absurd herror pure_ne_error
  | cons entry rest ih =>
      obtain ⟨migration, steps⟩ := entry
      obtain ⟨hscript, hrest⟩ := List.forall_mem_cons.mp hscripts
      obtain ⟨hstrike, hstrikes⟩ := List.forall_mem_cons.mp hstrikes
      rcases bind_eq_error.mp herror with hrevert | ⟨⟨⟩, τ₁, hrevert, herror⟩
      · obtain ⟨cause, hfailed, rfl⟩ := adaptExcept_eq_error.mp hrevert
        rw [revert_error h hdry htransactional hstrike hclosed hfailed]
        exact ⟨[], migration, rest.map (·.1), rfl, View.Receded.nil hclosed, rfl⟩
      · obtain ⟨statements, contents, hrecording, heffects, hview⟩ :=
          revert_ok h hdry htransactional hstrike hclosed (adaptExcept_eq_ok.mp hrevert)
        have hbetween : (view τ₁.database).saved = none := by rw [hview]
        obtain ⟨undone, failed, left, hsplit, hreceded, hblames⟩ :=
          ih hstrikes hrest hbetween herror
        refine ⟨migration :: undone, failed, left, ?_,
          .cons (hscript statements hrecording) heffects hview hreceded, hblames⟩
        rw [List.map_cons, hsplit, List.cons_append]

end RevertAll

end Migrator

end SchemaHistory
