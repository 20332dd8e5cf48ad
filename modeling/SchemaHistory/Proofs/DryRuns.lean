import SchemaHistory.Proofs.Requirements

/-!
# What a dry run prints

A dry run changes nothing, so what it does is told by its answer and by what it prints. `Run.Shows`
says both of a run that begins with a given view of the database, and is closed under the ways in
which runs are put together. A dry run of applying reads the ledger as it was at the beginning all
along: it prints the script of each migration that is not recorded there, provided that what the
migration depends on is recorded there or is printed before it as a migration of its own app
(`Migrator.shows_apply`).
-/

namespace SchemaHistory

def Transcript.printed {σ : Type} (τ : Transcript σ) : List String :=
  τ.lines.toList.filterMap fun
    | .output text => some text
    | .message .. => none

def Statement.line (dialect : Dialect) (statement : Statement) : String :=
  statement.text dialect ++ ";"

/-- In the dialects that are known by a name, changes to tables are part of a transaction. -/
theorem Dialect.transactional_of_byName? {name : String} {dialect : Dialect}
    (h : byName? name = some dialect) : dialect.capabilities.transactional = true := by
  unfold byName? at h
  split at h <;> cases h <;> rfl

namespace Run

variable {σ α β κ : Type} {view : σ → View κ} {v : View κ} {run : Run σ α} {a : α}
  {texts more : List String}

/-- From a view on, a run gives an answer and prints some texts, and leaves the view as it is. -/
def Shows (view : σ → View κ) (v : View κ) (run : Run σ α) (a : α) (texts : List String) : Prop :=
  ∀ τ, view τ.database = v →
    ∃ τ', run τ = .ok a τ' ∧ view τ'.database = v ∧ τ'.printed = τ.printed ++ texts

theorem Shows.pure (a : α) : Shows view v (Pure.pure a) a [] :=
  fun τ hτ => ⟨τ, rfl, hτ, (List.append_nil _).symm⟩

/-- Texts of one action stand before those of the next. -/
theorem Shows.bind {next : α → Run σ β} {b : β} (h : Shows view v run a texts)
    (hnext : Shows view v (next a) b more) : Shows view v (run >>= next) b (texts ++ more) := by
  intro τ hτ
  obtain ⟨τ₁, hrun, hview, hprinted⟩ := h τ hτ
  obtain ⟨τ₂, hthen, hview', hprinted'⟩ := hnext τ₁ hview
  refine ⟨τ₂, bind_eq_ok.mpr ⟨a, τ₁, hrun, hthen⟩, hview', ?_⟩
  rw [hprinted', hprinted, List.append_assoc]

/-- What follows a run that prints nothing. -/
theorem Shows.then {next : α → Run σ β} {b : β} (h : Shows view v run a [])
    (hnext : Shows view v (next a) b texts) : Shows view v (run >>= next) b texts :=
  h.bind hnext

theorem Shows.ofExcept (a : α) : Shows view v (Run.ofExcept (.ok a)) a [] := Shows.pure a

theorem Shows.inContext {migration : Migration} (h : Shows view v run a texts) :
    Shows view v (Run.inContext migration run) a texts := by
  intro τ hτ
  obtain ⟨τ', hrun, hrest⟩ := h τ hτ
  exact ⟨τ', adaptExcept_eq_ok.mpr hrun, hrest⟩

theorem Shows.emit (line : Line) : Shows view v (Run.emit line) () (match line with
    | .output text => [text]
    | .message .. => []) := by
  intro τ hτ
  refine ⟨{ τ with lines := τ.lines.push line }, rfl, hτ, ?_⟩
  unfold Transcript.printed
  rw [Array.toList_push, List.filterMap_append]
  cases line <;> rfl

/-- A loop shows the texts of its rounds in turn. -/
theorem Shows.forM {xs : List β} {f : β → Run σ Unit} {texts : β → List String}
    (h : ∀ x ∈ xs, Shows view v (f x) () (texts x)) :
    Shows view v (xs.forM f) () (xs.flatMap texts) := by
  induction xs with
  | nil => exact .pure ()
  | cons x xs ih =>
      obtain ⟨hx, hxs⟩ := List.forall_mem_cons.mp h
      exact hx.bind (ih hxs)

/-- A loop that prints nothing. -/
theorem Shows.forM_nil {xs : List β} {f : β → Run σ Unit}
    (h : ∀ x ∈ xs, Shows view v (f x) () []) : Shows view v (xs.forM f) () [] := by
  have hall := Shows.forM h
  rw [List.flatMap_eq_nil_iff.mpr fun _ _ => rfl] at hall
  exact hall

/-- A run that succeeds does what it shows. -/
theorem Shows.of_ok (h : Shows view v run a texts) {τ τ' : Transcript σ} {b : α}
    (hτ : view τ.database = v) (hok : run τ = .ok b τ') :
    b = a ∧ view τ'.database = v ∧ τ'.printed = τ.printed ++ texts := by
  obtain ⟨τ₁, hrun, hview, hprinted⟩ := h τ hτ
  obtain ⟨rfl, rfl⟩ := EStateM.Result.ok.inj (hok.symm.trans hrun)
  exact ⟨rfl, hview, hprinted⟩

/-- In a loop of rounds that change nothing and succeed, each round succeeds as it would at the
beginning. -/
theorem Looks.exists_of_forM_eq_ok {f : β → Run σ Unit} {xs : List β} {τ τ' : Transcript σ}
    (hlooks : ∀ x, Looks view (f x)) (h : xs.forM f τ = .ok () τ') :
    ∀ x ∈ xs, ∃ τ₁ τ₂, view τ₁.database = view τ.database ∧ f x τ₁ = .ok () τ₂ := by
  induction xs generalizing τ with
  | nil => exact nofun
  | cons x xs ih =>
      obtain ⟨τ₁, hx, hxs⟩ := forM_cons_eq_ok.mp h
      have hview := (hlooks x).ok _ _ _ hx
      refine List.forall_mem_cons.mpr ⟨⟨τ, τ₁, rfl, hx⟩, fun y hy => ?_⟩
      rw [← hview]
      exact ih hxs y hy

end Run

/-- Reading the ledger fails only where the database refuses the query. -/
theorem Ledger.entries_refused {σ : Type} {backend : Backend σ} {s t : σ} {app : String}
    {e : MigrationError} (herror : entries backend app s = .error e t) :
    ∃ cause, e = .ledger cause ∧ backend.query (query app) s = .error cause t := by
  rcases bind_eq_error.mp herror with herror | ⟨rows, u, -, herror⟩
  · obtain ⟨cause, hselect, rfl⟩ := adaptExcept_eq_error.mp herror
    rw [select_eq] at hselect
    rcases bind_eq_error.mp hselect with hquery | ⟨rows, u, -, hpure⟩
    · exact ⟨cause, rfl, hquery⟩
    · exact absurd hpure pure_ne_error
  · exact absurd herror pure_ne_error

/-- A database tells what its ledger holds. It may refuse to where the ledger holds nothing, as when
there is none. -/
def Backend.TellsLedger {σ κ : Type} (backend : Backend σ) (view : σ → View κ) : Prop :=
  ∀ app s e t, backend.query (Ledger.query app) s = .error e t → (view s).ledger = []

namespace Migrator

variable {σ κ : Type} {migrator : Migrator σ} {effect : Statement → κ → Option κ}
  {view : σ → View κ} {v : View κ} {τ τ' : Transcript σ} {state next : AppSchema}
  {migration : Migration} {app name : String} {migrations ordered rest : List Migration}
  {recorded done names : List String} {target : Option String} {statements : List Statement}

section Ledger

variable (h : migrator.backend.Reliable effect view) (hdry : migrator.dryRun = true)
  (htells : migrator.backend.TellsLedger view)

include h hdry htells

/-- The entries of an app are read from the ledger in view, and nothing is printed. -/
theorem shows_entries :
    Run.Shows view v (migrator.entries app) (v.ledger.filter (·.app == app)) [] := by
  rintro τ rfl
  cases hentries : Ledger.entries migrator.backend app τ.database with
  | ok records t =>
      obtain ⟨rfl, hview⟩ := Ledger.entries_ok h hentries
      refine ⟨{ τ with database := t }, bind_eq_ok.mpr ⟨.ok _, _, Run.attempt_eq_ok.mpr ?_, rfl⟩,
        hview, (List.append_nil _).symm⟩
      exact Run.onDatabase_eq_ok.mpr ⟨t, hentries, rfl⟩
  | error e t =>
      obtain ⟨cause, rfl, hquery⟩ := Ledger.entries_refused hentries
      have hattempt : (Run.onDatabase (Ledger.entries migrator.backend app)).attempt τ
          = .ok (.error (.ledger cause)) { τ with database := t } :=
        Run.attempt_eq_ok.mpr (Run.onDatabase_eq_error.mpr ⟨t, hentries, rfl⟩)
      refine ⟨{ τ with database := t }, bind_eq_ok.mpr ⟨_, _, hattempt, ?_⟩,
        h.queryRefused _ _ _ _ hquery, (List.append_nil _).symm⟩
      rw [htells app _ _ _ hquery]
      simp only [hdry, if_true]
      rfl

theorem shows_hasApplied :
    Run.Shows view v (migrator.hasApplied app name) (v.ledger.any (·.isFor app name)) [] := by
  have hentries : Run.Shows view v (migrator.entries app) (v.ledger.filter (·.app == app)) [] :=
    shows_entries h hdry htells
  refine hentries.then ?_
  rw [Ledger.any_name_eq]
  exact .pure _

/-- What a migration depends on is recorded, or belongs to its app and has just been applied. -/
theorem shows_requireApplied
    (hmet : ∀ dependency ∈ migration.dependencies,
      dependency.1 = migration.app ∧ dependency.2 ∈ done ∨
        v.ledger.any (·.isFor dependency.1 dependency.2) = true) :
    Run.Shows view v (migrator.requireApplied migration done) () [] := by
  refine .forM_nil fun ⟨app, name⟩ hmem => ?_
  dsimp only
  split
  · exact .pure ()
  · next hother =>
      rcases hmet _ hmem with ⟨happ, hin⟩ | hrecorded
      · exact absurd (by simpa using ⟨happ, hin⟩) hother
      · refine (shows_hasApplied h hdry htells).then ?_
        rw [hrecorded]
        exact .pure ()

/-- Dependencies on other apps that pass the check are recorded in the ledger. -/
theorem recorded_of_requireApplied (hok : migrator.requireApplied migration done τ = .ok () τ') :
    ∀ dependency ∈ migration.dependencies, dependency.1 = migration.app ∨
      (view τ.database).ledger.any (·.isFor dependency.1 dependency.2) = true := by
  intro dependency hmem
  obtain ⟨τ₁, τ₂, hview, hround⟩ :=
    Run.Looks.exists_of_forM_eq_ok (looks_requirement h.unmoved done) hok dependency hmem
  split at hround
  · next hown => exact Or.inl (by simpa using (Bool.and_eq_true_iff.mp hown).1)
  · obtain ⟨found, τ₃, hfound, hround⟩ := bind_eq_ok.mp hround
    obtain ⟨rfl, -⟩ := (shows_hasApplied h hdry htells).of_ok hview hfound
    split at hround
    · exact absurd hround throw_ne_ok
    · next hrecorded => exact Or.inr (by simpa using hrecorded)

end Ledger

/-! ### Printing one migration -/

section Perform

variable (hdry : migrator.dryRun = true)
  (hdialect : Dialect.byName? migrator.backend.dialect.name = some migrator.backend.dialect)

include hdry hdialect

/-- A dry run prints the statements of a migration and moves on to its next state. -/
theorem shows_perform
    (hscript : migration.script migrator.backend.dialect migrator.backend.now state false
      = .ok statements)
    (hnext : state.next migration = .ok next) :
    Run.Shows view v (migrator.perform state migration) next
      (statements.map (·.line migrator.backend.dialect)) := by
  obtain ⟨steps, hsteps, hscript⟩ := Except.bind_eq_ok.mp hscript
  have hrecording : Migration.recording migrator.backend.dialect migrator.backend.now
      (fun recorder => Migration.forwardAll recorder (migration.withSteps steps))
      = .ok statements := hscript
  have hemit : Run.Shows view v (migrator.emitStatements fun recorder =>
      Migration.forwardAll recorder (migration.withSteps steps)) ()
      (statements.map (·.line migrator.backend.dialect)) := by
    unfold emitStatements dialectNamed
    rw [hdialect]
    refine (Run.Shows.ofExcept _).then ?_
    rw [Migration.statementsOf_eq, hrecording]
    refine (Run.Shows.ofExcept _).then ?_
    have hlines : Run.Shows view v
        ((statements.map (Statement.text migrator.backend.dialect)).forM fun text =>
          Run.emit (.output (text ++ ";"))) ()
        ((statements.map (Statement.text migrator.backend.dialect)).flatMap fun text =>
          [text ++ ";"]) :=
      .forM fun text _ => .emit (.output (text ++ ";"))
    rw [← List.map_eq_flatMap, List.map_map] at hlines
    exact hlines
  unfold perform
  rw [hsteps, hnext]
  refine (Run.Shows.emit _).then ((Run.Shows.ofExcept _).then ?_)
  dsimp only
  rw [if_pos hdry]
  rw [← List.append_nil (statements.map _)]
  refine hemit.bind ((Run.Shows.ofExcept _).then ?_)
  exact (Run.Shows.emit _).then (.pure next)

end Perform

/-! ### Printing one migration after the other -/

/-- The script of a migration is the one that it has in its place in the order. -/
theorem Ahead.script (h : Ahead app ordered state (migration :: rest)) {dialect : Dialect}
    {now : DateTime} {reverse : Bool}
    (hscript : migration.HasScript dialect now app reverse ordered statements) :
    migration.script dialect now state reverse = .ok statements := by
  obtain ⟨earlier, later, hordered, hreplay⟩ := h.place
  have hnodup : ordered.Nodup := h.ascending.imp fun hlt => ne_of_apply_ne _ (ne_of_lt hlt)
  obtain ⟨state', hreplay', hscript⟩ := hscript.state hnodup hordered
  obtain rfl := Except.ok.inj (hreplay.symm.trans hreplay')
  exact hscript

section ApplyAll

variable (h : migrator.backend.Reliable effect view) (hdry : migrator.dryRun = true)
  (htells : migrator.backend.TellsLedger view)
  (hdialect : Dialect.byName? migrator.backend.dialect.name = some migrator.backend.dialect)

include h hdry htells hdialect

/-- `imagined` is the ledger as it would be if those in `done` had been recorded. -/
theorem shows_applyAll (hahead : Ahead app ordered state rest)
    (hreplay : ∃ final, rest.foldlM AppSchema.next state = .ok final)
    (hscripts : ∀ migration ∈ rest.filter fun migration => !recorded.contains migration.name,
      ∃ statements, migration.HasScript migrator.backend.dialect migrator.backend.now app false
        ordered statements)
    {imagined : List LedgerEntry}
    (himagined : ∀ otherApp name, imagined.any (·.isFor otherApp name) = true →
      otherApp = app ∧ name ∈ done ∨ v.ledger.any (·.isFor otherApp name) = true)
    (hsupplied : Ledger.Supplied imagined
      (rest.filter fun migration => !recorded.contains migration.name)) :
    ∃ names scripts,
      List.Forall₂ (Migration.HasScript migrator.backend.dialect migrator.backend.now app false
        ordered) (rest.filter fun migration => !recorded.contains migration.name) scripts ∧
      Run.Shows view v (migrator.applyAll recorded state done rest) names
        (scripts.flatten.map (·.line migrator.backend.dialect)) := by
  obtain ⟨final, hreplay⟩ := hreplay
  induction rest generalizing state done imagined with
  | nil => exact ⟨done, [], .nil, .pure done⟩
  | cons migration rest ih =>
      rw [List.foldlM_cons] at hreplay
      obtain ⟨next, hnext, hreplay⟩ := Except.bind_eq_ok.mp hreplay
      have happ : migration.app = app := hahead.app_eq _ (hahead.mem List.mem_cons_self)
      unfold applyAll
      by_cases hrecorded : recorded.contains migration.name = true
      · rw [List.filter_cons_of_neg (by rw [hrecorded]; simp)] at hscripts hsupplied ⊢
        obtain ⟨names, scripts, hall, hshows⟩ :=
          ih (hahead.tail hnext) hscripts himagined hsupplied hreplay
        refine ⟨names, scripts, hall, ?_⟩
        rw [if_pos hrecorded, hnext]
        exact (Run.Shows.emit _).then ((Run.Shows.ofExcept next).then hshows)
      · rw [List.filter_cons_of_pos (by simpa using hrecorded)] at hscripts hsupplied ⊢
        obtain ⟨⟨statements, hscript⟩, hscripts⟩ := List.forall_mem_cons.mp hscripts
        have hfirst : ∀ other ∈ rest.filter fun migration => !recorded.contains migration.name,
            migration.name < other.name :=
          fun other hother => hahead.name_lt (List.mem_of_mem_filter hother)
        have hmet : ∀ dependency ∈ migration.dependencies,
            dependency.1 = migration.app ∧ dependency.2 ∈ done ∨
              v.ledger.any (·.isFor dependency.1 dependency.2) = true := by
          intro dependency hdependency
          rw [happ]
          exact himagined _ _ (hsupplied.head hfirst dependency hdependency)
        -- the row that the migration would have
        let entry : LedgerEntry := ⟨0, migration.app, migration.name, migration.number, none⟩
        have himagined' : ∀ otherApp name,
          (imagined ++ [entry]).any (·.isFor otherApp name) = true →
            otherApp = app ∧ name ∈ done ++ [migration.name] ∨
              v.ledger.any (·.isFor otherApp name) = true := by
          intro otherApp name hfound
          rw [List.any_append, Bool.or_eq_true] at hfound
          rcases hfound with hfound | hfound
          · exact (himagined otherApp name hfound).imp_left
              (And.imp_right (List.mem_append_left _))
          · have hown : migration.app = otherApp ∧ migration.name = name := by
              simpa [LedgerEntry.isFor, entry] using hfound
            refine Or.inl ⟨hown.1 ▸ happ, List.mem_append_right _ ?_⟩
            rw [hown.2]
            exact List.mem_singleton_self _
        obtain ⟨names, scripts, hall, hshows⟩ := ih (hahead.tail hnext) hscripts himagined'
          (hsupplied.tail ⟨rfl, rfl, rfl⟩) hreplay
        refine ⟨names, statements :: scripts, .cons hscript hall, ?_⟩
        rw [if_neg hrecorded, List.flatten_cons, List.map_append]
        refine (shows_requireApplied h hdry htells hmet).then ?_
        exact (shows_perform hdry hdialect (hahead.script hscript) hnext).inContext.bind hshows

omit hdialect in
/-- A dry run that succeeds has found what each migration that is not recorded depends on. -/
theorem recorded_of_applyAll (hok : migrator.applyAll recorded state done rest τ = .ok names τ') :
    ∀ migration ∈ rest.filter fun migration => !recorded.contains migration.name,
      ∀ dependency ∈ migration.dependencies, dependency.1 = migration.app ∨
        (view τ.database).ledger.any (·.isFor dependency.1 dependency.2) = true := by
  induction rest generalizing state done τ with
  | nil => exact nofun
  | cons migration rest ih =>
      cases appliesFirst_of_ok hok with
      | skipped hrecorded _ hsame hrest =>
          rw [List.filter_cons_of_neg (by rw [hrecorded]; simp), ← hsame]
          exact ih hrest
      | @applied _ τ₁ τ₂ _ _ hrecorded hrequired hperform hrest =>
          have hview : view τ₂.database = view τ₁.database :=
            (looks_perform hdry).ok _ _ _ hperform
          rw [List.filter_cons_of_pos (by simpa using hrecorded)]
          refine List.forall_mem_cons.mpr ⟨recorded_of_requireApplied h hdry htells hrequired, ?_⟩
          rw [← (looks_requireApplied h.unmoved done).ok _ _ _ hrequired, ← hview]
          exact ih hrest

end ApplyAll

/-! ### Printing what is pending -/

/-- Applying up to a target that is the number of one of the migrations, or its name. -/
theorem apply_eq_of_known (migrator : Migrator σ)
    (horder : Migration.InOrder app migrations ordered)
    (hmem : migration ∈ ordered) {target : String}
    (htarget : migration.number = numberOfTarget target) :
    migrator.apply app migrations (some target) =
      migrator.applyWithin app (some target) ordered := by
  have hknown : (!ordered.any (·.number == numberOfTarget target)) = false := by
    rw [Bool.not_eq_false', List.any_eq_true]
    exact ⟨migration, hmem, beq_iff_eq.mpr htarget⟩
  unfold apply applyWithin
  rw [horder.sorted_eq, Run.ofExcept_ok_bind,
    Option.map_some]
  dsimp only
  rw [hknown]
  rfl

theorem apply_eq_of_mem (migrator : Migrator σ) (horder : Migration.InOrder app migrations ordered)
    (hmem : migration ∈ ordered) : migrator.apply app migrations (some migration.name)
      = migrator.applyWithin app (some migration.name) ordered :=
  apply_eq_of_known migrator horder hmem (numberOfTarget_name (horder.numbered_of_mem hmem)).symm

/-- A migration that has been carried out leaves the state that the replay reaches. -/
theorem next_of_perform (hok : migrator.perform state migration τ = .ok next τ') :
    state.next migration = .ok next := by
  obtain ⟨⟨⟩, τ₁, -, hok⟩ := bind_eq_ok.mp hok
  obtain ⟨steps, τ₂, -, hok⟩ := bind_eq_ok.mp hok
  -- whatever is done with the steps, the next state is the answer
  have hend : ∀ {work : Run σ Unit} {τ : Transcript σ}, (do
      work
      let state ← Run.ofExcept (state.next migration)
      Run.report .info "Migration applied successfully" migration []
      return state) τ = .ok next τ' → state.next migration = .ok next := by
    intro work τ h
    obtain ⟨⟨⟩, τ₃, -, h⟩ := bind_eq_ok.mp h
    obtain ⟨found, τ₄, hanswer, h⟩ := bind_eq_ok.mp h
    obtain ⟨⟨⟩, τ₅, -, h⟩ := bind_eq_ok.mp h
    obtain ⟨rfl, -⟩ := pure_eq_ok.mp h
    exact (Run.ofExcept_eq_ok.mp hanswer).1
  dsimp only at hok
  split at hok
  · exact hend hok
  · split at hok
    · exact hend hok
    · exact hend hok

/-- Applying that succeeds has gone through the whole list. -/
theorem replay_of_applyAll (hok : migrator.applyAll recorded state done rest τ = .ok names τ') :
    ∃ final, rest.foldlM AppSchema.next state = .ok final := by
  induction rest generalizing state done τ with
  | nil => exact ⟨state, rfl⟩
  | cons migration rest ih =>
      have hcons : ∀ {next : AppSchema} {done : List String} {τ : Transcript σ},
          state.next migration = .ok next →
          migrator.applyAll recorded next done rest τ = .ok names τ' →
          ∃ final, (migration :: rest).foldlM AppSchema.next state = .ok final := by
        intro next done τ hnext hrest
        obtain ⟨final, hfinal⟩ := ih hrest
        exact ⟨final, Except.bind_eq_ok.mpr ⟨next, hnext, hfinal⟩⟩
      cases appliesFirst_of_ok hok with
      | skipped _ hnext _ hrest => exact hcons hnext hrest
      | applied _ _ hperform hrest => exact hcons (next_of_perform hperform) hrest

/-- A run up to a target that succeeds has replayed everything within it. -/
theorem replay_of_apply (horder : Migration.InOrder app migrations ordered)
    (hok : migrator.apply app migrations target τ = .ok names τ') :
    ∃ final, AppSchema.replay app
      (ordered.takeWhile (isWithin (target.map numberOfTarget))) = .ok final := by
  rcases apply_eq migrator horder with heq | ⟨number, heq⟩
  · rw [heq] at hok
    obtain ⟨records, τ₁, -, hok⟩ := bind_eq_ok.mp hok
    obtain ⟨applied, τ₂, hall, -⟩ := bind_eq_ok.mp hok
    exact replay_of_applyAll hall
  · rw [heq] at hok
    exact absurd hok throw_ne_ok

section Apply

variable (h : migrator.backend.Reliable effect view) (hdry : migrator.dryRun = true)
  (htells : migrator.backend.TellsLedger view)
  (horder : Migration.InOrder app migrations ordered) (hmem : migration ∈ ordered)

include h hdry htells horder hmem

/-- A dry run up to one of the migrations prints the scripts of those that are not recorded, if
these can be applied one after the other. -/
theorem shows_apply
    (hdialect : Dialect.byName? migrator.backend.dialect.name = some migrator.backend.dialect)
    (hreplay : ∃ final, AppSchema.replay app
      (ordered.takeWhile (isWithin ((some migration.name).map numberOfTarget))) = .ok final)
    (hscripts : ∀ pending ∈ Ledger.pending v.ledger app (some migration.name) ordered,
      ∃ statements, pending.HasScript migrator.backend.dialect migrator.backend.now app false
        ordered statements)
    (hsupplied : Ledger.Supplied v.ledger
      (Ledger.pending v.ledger app (some migration.name) ordered)) :
    ∃ names scripts,
      List.Forall₂ (Migration.HasScript migrator.backend.dialect migrator.backend.now app false
        ordered) (Ledger.pending v.ledger app (some migration.name) ordered) scripts ∧
      Run.Shows view v (migrator.apply app migrations (some migration.name)) names
        (scripts.flatten.map (·.line migrator.backend.dialect)) := by
  rw [← pending_eq horder] at hscripts hsupplied ⊢
  have hnothing : ∀ otherApp name, v.ledger.any (·.isFor otherApp name) = true →
      otherApp = app ∧ name ∈ ([] : List String) ∨ v.ledger.any (·.isFor otherApp name) = true :=
    fun _ _ hfound => Or.inr hfound
  obtain ⟨names, scripts, hall, hshows⟩ := shows_applyAll h hdry htells hdialect
    (.of_inOrder horder (List.takeWhile_append_dropWhile).symm) hreplay hscripts hnothing hsupplied
  refine ⟨names, scripts, hall, ?_⟩
  rw [apply_eq_of_mem migrator horder hmem]
  refine (shows_entries h hdry htells).then ?_
  rw [← List.append_nil (scripts.flatten.map _)]
  refine hshows.bind ?_
  dsimp only
  split
  · exact (Run.Shows.emit _).then (.pure names)
  · exact .pure names

theorem recorded_of_apply
    (hok : migrator.apply app migrations (some migration.name) τ = .ok names τ') :
    ∀ pending ∈ Ledger.pending (view τ.database).ledger app (some migration.name) ordered,
      ∀ dependency ∈ pending.dependencies, dependency.1 = pending.app ∨
        (view τ.database).ledger.any (·.isFor dependency.1 dependency.2) = true := by
  rw [apply_eq_of_mem migrator horder hmem] at hok
  obtain ⟨records, τ₁, hentries, hok⟩ := bind_eq_ok.mp hok
  obtain ⟨rfl, hview, -⟩ := (shows_entries h hdry htells).of_ok rfl hentries
  obtain ⟨applied, τ₂, hall, -⟩ := bind_eq_ok.mp hok
  have hfound := recorded_of_applyAll h hdry htells hall
  rw [hview, pending_eq horder] at hfound
  exact hfound

end Apply

end Migrator

end SchemaHistory
