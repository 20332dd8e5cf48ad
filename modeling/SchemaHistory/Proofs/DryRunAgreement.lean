import SchemaHistory.Proofs.AllOrNothing
import SchemaHistory.Proofs.Courses

/-!
# Real runs, dry runs and printed statements

A dry run prints what the real run does, statement by statement and migration by migration, and
gives its answer, unless a statement is refused. `Migrator.migrationStatements` gives the same
statements, forward for every migration and backward for those recorded, as long as these are the
first of the list.

What a call does is a `Course`, computed from the migrations and the ledger alone.

* A real run that is granted everything takes this course (`granting_applyWithin`,
  `granting_rollback`).
* A dry run prints it and only reads (`rehearsed_applyWithin`, `rehearsed_rollback`,
  `onlyReads_of_dryRun`).
* Each migration on it has the script that can be printed alone (`hasScript_of_applying`,
  `hasScript_of_undoing`).

`Migrator.rehearsals_agree` puts the three together.
-/

namespace SchemaHistory

def Run.answerOf {σ α : Type} (run : Run σ α) (τ : Transcript σ) : Except MigrationError α :=
  match run τ with
  | .ok a _ => .ok a
  | .error e _ => .error e

/-- What is promised of a run whose requests are granted, said of its answer and of what it adds to
the log. -/
theorem Granting.run {σ α : Type} {log : σ → List Event} {run : Run σ α} {τ : Transcript σ}
    {post : Except MigrationError α → List Request → Transcript σ → Prop}
    (h : Granting (Run.logOf log) run τ post)
    (hgranted : Granted log τ.database (Migrator.finish run τ).database) :
    post (run.answerOf τ) (changesBetween log τ.database (Migrator.finish run τ).database)
      (Migrator.finish run τ) := by
  refine h _ _ ?_ hgranted
  unfold Run.answerOf Migrator.finish
  cases run τ <;> rfl

/-- A run that makes requests of one kind only adds nothing else to the log. -/
theorem Asks.run {σ α : Type} {log : σ → List Event} {P : Request → Prop} {run : Run σ α}
    (h : Asks (Run.logOf log) P run) (τ : Transcript σ) :
    Continues log P τ.database (Migrator.finish run τ).database := by
  unfold Migrator.finish
  cases hrun : run τ with
  | ok a τ' => exact h.ok _ _ _ hrun
  | error e τ' => exact h.error _ _ _ hrun

/-- A run of which another shows the course: both give the same answer, and what one asks for the
other prints. Both begin on one database and with an empty console. -/
structure Course.IsCourseOf {σ : Type} (course : Course) (log : σ → List Event) (dialect : Dialect)
    (closing : Migration → Statement) (message : String) (real dry : Run σ (List String)) (s : σ) :
    Prop where
  answer : real.answerOf ⟨s, #[]⟩ = course.answer []
  foretold : dry.answerOf ⟨s, #[]⟩ = course.answer []
  carriedOut : course.IsTakenBy closing
    (changesBetween log s (Migrator.finish real ⟨s, #[]⟩).database)
  printed : course.IsShownBy dialect message (Migrator.finish dry ⟨s, #[]⟩).lines.toList

/-- The statements of the migrations in a course are those that are printed of them one by one. -/
def Course.IsPrintedBy (course : Course) (dialect : Dialect) (now : DateTime) (app : String)
    (migrations : List Migration) (reverse : Bool) : Prop :=
  ∀ migration script, (migration, script) ∈ course.carried →
    Migrator.migrationStatements dialect.name now app migrations migration.name reverse
      = .ok (script.map (·.text dialect))

/-- All that a run does is ask for the rows of the ledger, whether it gets them or not. -/
structure Run.OnlyReads {σ κ α : Type} (log : σ → List Event) (view : σ → View κ) (run : Run σ α)
    (s : σ) : Prop where
  requests : Continues log (fun request => ∃ app, request = .query (Ledger.query app)) s
    (Migrator.finish run ⟨s, #[]⟩).database
  view : view (Migrator.finish run ⟨s, #[]⟩).database = view s

namespace Migrator

variable {σ κ : Type} {log : σ → List Event} {effect : Statement → κ → Option κ}
  {view : σ → View κ} {backend : Backend σ} {migrator : Migrator σ} {τ : Transcript σ} {s : σ}
  {app : String} {migrations ordered rest : List Migration} {state : AppSchema}
  {recorded done : List String} {ledger : List LedgerEntry}

/-! ### The list of migrations -/

section Sorted

variable (hsorted : sorted app migrations = .ok ordered)
  (hnames : (migrations.map (·.name)).Nodup)

include hsorted

/-- Sorting leaves no migration out and adds none. -/
theorem perm_of_sorted : ordered.Perm migrations := by
  unfold sorted at hsorted
  split at hsorted
  · cases hsorted
  · cases hsorted
    exact List.mergeSort_perm migrations _

/-- Only migrations of the app asked for are sorted. -/
theorem app_of_sorted : ∀ migration ∈ ordered, migration.app = app := by
  intro migration hmem
  have hmem' := (perm_of_sorted hsorted).mem_iff.mp hmem
  unfold sorted at hsorted
  split at hsorted
  · cases hsorted
  · next hnone => simpa using List.find?_eq_none.mp hnone migration hmem'

include hnames

theorem ascending_of_sorted : ordered.Pairwise (·.name < ·.name) := by
  have hnodup := ((perm_of_sorted hsorted).map (·.name)).nodup_iff.mpr hnames
  have hdistinct := List.pairwise_map.mp hnodup
  unfold sorted at hsorted
  split at hsorted
  · cases hsorted
  · cases hsorted
    exact ((Migration.pairwise_sorted migrations).and hdistinct).imp fun h => lt_of_le_of_ne h.1 h.2

/-- From the empty state the replay meets the sorted migrations one after the other. -/
theorem ahead_of_sorted {later : List Migration} (hrest : ordered = rest ++ later) :
    Ahead app ordered { app } rest where
  place := ⟨[], later, hrest, rfl⟩
  ascending := ascending_of_sorted hsorted hnames
  app_eq := app_of_sorted hsorted

/-- The statements printed of a migration are its script. -/
theorem migrationStatements_eq {dialect : Dialect} {now : DateTime}
    (hdialect : Dialect.byName? dialect.name = some dialect) {migration : Migration}
    {reverse : Bool} {script : List Statement}
    (hscript : migration.HasScript dialect now app reverse ordered script) :
    migrationStatements dialect.name now app migrations migration.name reverse
      = .ok (script.map (·.text dialect)) := by
  obtain ⟨earlier, later, state, hplace, hreplay, hscript⟩ := hscript
  have hascending := ascending_of_sorted hsorted hnames
  have hother : ∀ before ∈ earlier, decide (before.name ≠ migration.name) = true := by
    intro before hbefore
    rw [hplace] at hascending
    have hlt := (List.pairwise_append.mp hascending).2.2 before hbefore migration
      List.mem_cons_self
    simpa using ne_of_lt hlt
  have hdrop : ordered.dropWhile (·.name ≠ migration.name) = migration :: later := by
    rw [hplace, List.dropWhile_append_of_pos hother, List.dropWhile_cons_of_neg (by simp)]
  have htake : ordered.takeWhile (·.name ≠ migration.name) = earlier := by
    rw [hplace, List.takeWhile_append_of_pos hother, List.takeWhile_cons_of_neg (by simp),
      List.append_nil]
  obtain ⟨steps, hsteps, hrecording⟩ := Except.bind_eq_ok.mp hscript
  unfold migrationStatements dialectNamed
  rw [hsorted]
  show (pure ordered >>= _) = _
  rw [pure_bind, hdrop, htake]
  refine Except.bind_eq_ok.mpr ⟨state, hreplay, Except.bind_eq_ok.mpr ⟨steps, ?_, ?_⟩⟩
  · rw [hsteps]
    rfl
  · rw [hdialect]
    refine Except.bind_eq_ok.mpr ⟨dialect, rfl, ?_⟩
    dsimp only
    rw [Migration.statementsOf_eq, hrecording]
    rfl

end Sorted

/-! ### Applying -/

section Apply

variable {target : Option String}

def courseWithin (dialect : Dialect) (now : DateTime) (ledger : List LedgerEntry) (app : String)
    (target : Option String) (ordered : List Migration) : Course :=
  .ofApplying dialect now ledger ((ledger.filter (·.app == app)).map (·.name)) { app } []
    (ordered.takeWhile (isWithin (target.map numberOfTarget)))

/-- The statements in the course of applying are scripts. -/
theorem hasScript_of_applying {dialect : Dialect} {now : DateTime}
    (hahead : Ahead app ordered state rest) {migration : Migration} {script : List Statement}
    (hmem : (migration, script)
      ∈ (Course.ofApplying dialect now ledger recorded state done rest).carried) :
    migration.HasScript dialect now app false ordered script := by
  induction rest generalizing state done with
  | nil => cases hmem
  | cons first rest ih =>
      unfold Course.ofApplying at hmem
      split at hmem
      · split at hmem
        · next hnext => exact ih (hahead.tail hnext) hmem
        · cases hmem
      · split at hmem
        · cases hmem
        · split at hmem
          · cases hmem
          · next hprospect =>
              obtain ⟨hscript, hnext⟩ := Migration.of_prospect hprospect
              rcases List.mem_cons.mp hmem with heq | hmem
              · cases heq
                exact hahead.hasScript hscript
              · exact ih (hahead.tail hnext) hmem

/-- What follows is a message, or nothing. -/
theorem asks_return {P : Request → Prop} (line : Line) (names : List String) :
    Asks (Run.logOf log) P (do
      if names.isEmpty then Run.emit line
      return names : Run σ (List String)) := by
  dsimp only
  split
  · exact (Run.asks_emit _).bind fun _ => .pure _
  · exact .pure _

/-- A real run that is granted all it asks for takes the course of applying. -/
theorem granting_applyWithin (h : migrator.backend.Reliable effect view)
    (hlogs : migrator.backend.Logs log) (hdry : migrator.dryRun = false)
    (htransactional : migrator.backend.dialect.capabilities.transactional = true)
    (hsorted : sorted app migrations = .ok ordered) (hnames : (migrations.map (·.name)).Nodup)
    (hclosed : (view τ.database).saved = none) :
    Granting (Run.logOf log) (migrator.applyWithin app target ordered) τ fun answer requests _ =>
      let course := courseWithin migrator.backend.dialect migrator.backend.now
        (view τ.database).ledger app target ordered
      answer = course.answer [] ∧
        course.IsTakenBy (recordingOf migrator.backend.now) requests := by
  refine Looked.bind (granting_entries h hlogs app) (asks_entries hlogs (fun _ => trivial) app)
    (fun _ => (asks_applyAll hlogs (fun _ => trivial) (fun _ _ => trivial) _).bind
      fun _ => asks_return _ _) ?_ nofun
  rintro records τ₁ ⟨⟩ _ hview
  have hbegin : Ledger.GoesOn app (view τ.database).ledger [] (view τ₁.database).ledger := by
    rw [hview]
    exact .refl
  refine Granting.bind
    (asks_applyAll hlogs (fun _ => trivial) (fun _ _ => trivial) _)
    (fun _ => asks_return _ _) (Granting.mono (granting_applyAll h hlogs hdry htransactional
      (ahead_of_sorted hsorted hnames List.takeWhile_append_dropWhile.symm) (hview ▸ hclosed)
      hbegin) ?_)
  rintro answer requests τ₂ ⟨hanswer, htaken⟩
  cases answer with
  | error e => exact ⟨hanswer, htaken⟩
  | ok names =>
      dsimp only
      split
      · exact Run.granting_emit_bind (.pure ⟨hanswer, (List.append_nil requests).symm ▸ htaken⟩)
      · exact .pure ⟨hanswer, (List.append_nil requests).symm ▸ htaken⟩

/-- A dry run prints the same course and asks the database to read only. -/
theorem rehearsed_applyWithin (h : migrator.backend.Reliable effect view)
    (hlogs : migrator.backend.Logs log) (hdry : migrator.dryRun = true)
    (hdialect : Dialect.byName? migrator.backend.dialect.name = some migrator.backend.dialect)
    (hsorted : sorted app migrations = .ok ordered) (hnames : (migrations.map (·.name)).Nodup) :
    Granting (Run.logOf log) (migrator.applyWithin app target ordered) τ fun answer _ τ' =>
      let course := courseWithin migrator.backend.dialect migrator.backend.now
        (view τ.database).ledger app target ordered
      answer = course.answer [] ∧ ∃ lines, τ'.lines.toList = τ.lines.toList ++ lines ∧
        course.IsShownBy migrator.backend.dialect "Migration applied successfully" lines := by
  refine Looked.bind (granting_entries h hlogs app) (asks_entries hlogs (fun _ => trivial) app)
    (fun _ => (asks_applyAll hlogs (fun _ => trivial) (fun _ _ => trivial) _).bind
      fun _ => asks_return _ _) ?_ nofun
  rintro records τ₁ ⟨⟩ hlines hview
  rw [← hlines, ← hview]
  refine Granting.bind
    (asks_applyAll hlogs (fun _ => trivial) (fun _ _ => trivial) _)
    (fun _ => asks_return _ _) (Granting.mono (rehearsed_applyAll h hlogs hdry hdialect
      (ahead_of_sorted hsorted hnames List.takeWhile_append_dropWhile.symm) rfl) ?_)
  rintro answer requests τ₂ ⟨hanswer, lines, hlines, hshown⟩
  cases answer with
  | error e => exact ⟨hanswer, lines, hlines, hshown⟩
  | ok names =>
      dsimp only
      split
      · refine Run.granting_emit_bind (.pure ⟨hanswer,
          lines ++ [Line.message .info "No migrations to apply" [("app", app)]], ?_,
          hshown.append_message (by decide)⟩)
        rw [Array.toList_push, hlines, List.append_assoc]
      · exact .pure ⟨hanswer, lines, hlines, hshown⟩

end Apply

/-! ### Rolling back -/

section Rollback

variable {target : String} {undo : List (Migration × Migration.Steps)}

/-- The course of undoing all recorded migrations above a target. -/
def courseAbove (dialect : Dialect) (now : DateTime) (ledger : List LedgerEntry)
    (app target : String) (ordered : List Migration) : Course :=
  match (ledger.filter (·.app == app)).find? fun record =>
    !ordered.any (·.name == record.name) with
  | some unknown => ⟨[], some (.notFound app unknown.name)⟩
  | none =>
    match undoList (numberOfTarget target) { app } (Ledger.recorded ledger app ordered) with
    | .error e => ⟨[], some e⟩
    | .ok undo => .ofUndoing dialect now undo.reverse

/-- Each migration that a course takes back is recorded by undoing its own steps. -/
theorem exists_of_undoing {dialect : Dialect} {now : DateTime} {migration : Migration}
    {script : List Statement}
    (hmem : (migration, script) ∈ (Course.ofUndoing dialect now undo).carried) :
    ∃ steps, (migration, steps) ∈ undo ∧ Migration.recording dialect now
      (fun backend => Migration.backwardAll backend steps) = .ok script := by
  induction undo with
  | nil => cases hmem
  | cons entry rest ih =>
      unfold Course.ofUndoing at hmem
      split at hmem
      · cases hmem
      · next hrecording =>
          rcases List.mem_cons.mp hmem with heq | hmem
          · cases heq
            exact ⟨_, List.mem_cons_self, hrecording⟩
          · obtain ⟨steps, hin, hrecording⟩ := ih hmem
            exact ⟨steps, List.mem_cons_of_mem _ hin, hrecording⟩

/-- The migrations in the list are among those that are recorded, and no two have one name. -/
theorem undo_of_undoList {number : String} (hahead : Ahead app rest { app } rest)
    (hundo : undoList number { app } rest = .ok undo) (dialect : Dialect) (now : DateTime) :
    (∀ entry ∈ undo.reverse, entry.1 ∈ rest ∧ ∀ script,
      Migration.recording dialect now (fun backend => Migration.backwardAll backend entry.2)
        = .ok script → entry.1.HasScript dialect now app true rest script) ∧
    undo.reverse.Pairwise fun a b => a.1.name ≠ b.1.name := by
  have hmap := map_undoList hundo
  constructor
  · intro entry hentry
    have hin := List.mem_reverse.mp hentry
    refine ⟨?_, fun script => hasScript_of_undoList hahead hundo hin⟩
    have hmem : entry.1 ∈ undo.map (·.1) := List.mem_map_of_mem hin
    rw [hmap] at hmem
    exact List.mem_of_mem_filter hmem
  · have hascending : (undo.map (·.1)).Pairwise (·.name < ·.name) := by
      rw [hmap]
      exact hahead.ascending.filter _
    exact List.pairwise_reverse.mpr
      ((List.pairwise_map.mp hascending).imp fun hlt => (ne_of_lt hlt).symm)

/-- The recorded migrations are met in order, too, by the replay of the recorded ones. -/
theorem ahead_recorded (hsorted : sorted app migrations = .ok ordered)
    (hnames : (migrations.map (·.name)).Nodup) (ledger : List LedgerEntry) :
    Ahead app (Ledger.recorded ledger app ordered) { app }
      (Ledger.recorded ledger app ordered) where
  place := ⟨[], [], (List.append_nil _).symm, rfl⟩
  ascending := (ascending_of_sorted hsorted hnames).filter _
  app_eq migration hmem := app_of_sorted hsorted migration (List.mem_of_mem_filter hmem)

/-- The statements in the course of rolling back are scripts. -/
theorem hasScript_of_undoing {dialect : Dialect} {now : DateTime}
    (hsorted : sorted app migrations = .ok ordered) (hnames : (migrations.map (·.name)).Nodup)
    {migration : Migration} {script : List Statement}
    (hmem : (migration, script) ∈ (courseAbove dialect now ledger app target ordered).carried) :
    migration.HasScript dialect now app true (Ledger.recorded ledger app ordered) script := by
  unfold courseAbove at hmem
  split at hmem
  · cases hmem
  · split at hmem
    · cases hmem
    · next hundo =>
        obtain ⟨steps, hin, hrecording⟩ := exists_of_undoing hmem
        have hundone := undo_of_undoList (ahead_recorded hsorted hnames ledger) hundo dialect now
        exact (hundone.1 _ hin).2 script hrecording

/-- What rolling back asks for after the ledger is read. -/
theorem asks_rollbackWithin {P : Request → Prop} (hlogs : migrator.backend.Logs log)
    (hreal : migrator.dryRun = false → ∀ request, P request) (records : List LedgerEntry) :
    Asks (Run.logOf log) P (match records.find? fun record =>
        !ordered.any (·.name == record.name) with
      | some unknown => throw (.notFound app unknown.name)
      | none => migrator.rollbackWithin app target
          (ordered.filter fun migration => records.any (·.name == migration.name))) := by
  split
  · exact .throw _
  · refine (Run.asks_ofExcept _).bind fun undo => ?_
    split
    · exact (Run.asks_emit _).bind fun _ => .pure []
    · exact (asks_revertAll hlogs hreal _).bind fun _ => .pure _

/-- Where all are undone, these are the ones to be undone. -/
theorem names_of_undoing {dialect : Dialect} {now : DateTime}
    (h : (Course.ofUndoing dialect now undo).verdict = .ok ()) :
    (Course.ofUndoing dialect now undo).answer [] = .ok (undo.map (·.1.name)) := by
  have hnames : (Course.ofUndoing dialect now undo).failure = none →
      (Course.ofUndoing dialect now undo).carried.map (·.1.name) = undo.map (·.1.name) := by
    clear h
    induction undo with
    | nil => exact fun _ => rfl
    | cons entry rest ih =>
        unfold Course.ofUndoing
        split
        · exact nofun
        · exact fun hnone => congrArg _ (ih hnone)
  unfold Course.verdict at h
  split at h
  · next hnone =>
      unfold Course.answer
      rw [hnone, hnames hnone]
      rfl
  · cases h

theorem answer_of_failure {course : Course} {e : MigrationError} (h : course.verdict = .error e) :
    course.answer [] = .error e := by
  unfold Course.verdict at h
  unfold Course.answer
  split at h
  · cases h
  · cases h
    rfl

/-- A real rollback that is granted all it asks for takes the course of undoing. -/
theorem granting_rollback (h : migrator.backend.Reliable effect view)
    (hlogs : migrator.backend.Logs log) (hdry : migrator.dryRun = false)
    (htransactional : migrator.backend.dialect.capabilities.transactional = true)
    (hsorted : sorted app migrations = .ok ordered) (hnames : (migrations.map (·.name)).Nodup)
    (hclosed : (view τ.database).saved = none)
    (hstrikes : ∀ migration ∈ migrations, migrator.backend.Strikes view app migration.name) :
    Granting (Run.logOf log) (migrator.rollback app migrations target) τ fun answer requests _ =>
      let course := courseAbove migrator.backend.dialect migrator.backend.now
        (view τ.database).ledger app target ordered
      answer = course.answer [] ∧ course.IsTakenBy strikingOf requests := by
  rw [rollback_eq_of_sorted hsorted]
  refine Looked.bind (granting_entries h hlogs app) (asks_entries hlogs (fun _ => trivial) app)
    (asks_rollbackWithin hlogs fun _ _ => trivial) ?_ nofun
  rintro records τ₁ ⟨⟩ _ hview
  rw [recorded_eq]
  unfold courseAbove
  generalize List.find? _ _ = unknown?
  cases unknown? with
  | some unknown => exact .throw ⟨rfl, .failed (.inl rfl)⟩
  | none =>
      unfold rollbackWithin
      refine Run.granting_ofExcept_bind ?_
      cases hundo : undoList (numberOfTarget target) { app }
        (Ledger.recorded (view τ.database).ledger app ordered) with
      | error e => exact ⟨rfl, .failed (.inl rfl)⟩
      | ok undo =>
          obtain ⟨hrecorded, hdistinct⟩ := undo_of_undoList (ahead_recorded hsorted hnames _) hundo
            migrator.backend.dialect migrator.backend.now
          dsimp only
          split
          · next hempty =>
              obtain rfl := List.isEmpty_iff.mp hempty
              exact Run.granting_emit_bind (.pure ⟨rfl, .nil⟩)
          · have hthere : ∀ entry ∈ undo.reverse, (view τ₁.database).ledger.any
                (·.isFor entry.1.app entry.1.name) = true := by
              intro entry hentry
              have hmem := (hrecorded entry hentry).1
              rw [hview, app_of_sorted hsorted _ (List.mem_of_mem_filter hmem)]
              simpa using (List.mem_filter.mp hmem).2
            have hstrike : ∀ entry ∈ undo.reverse,
                migrator.backend.Strikes view entry.1.app entry.1.name := by
              intro entry hentry
              have hmem := List.mem_of_mem_filter (hrecorded entry hentry).1
              rw [app_of_sorted hsorted _ hmem]
              exact hstrikes _ ((perm_of_sorted hsorted).mem_iff.mp hmem)
            refine Granting.bind (asks_revertAll hlogs (fun _ _ => trivial) _)
              (fun _ => .pure _) (Granting.mono (granting_revertAll h hlogs hdry htransactional
                (hview ▸ hclosed) hstrike hthere hdistinct) ?_)
            rintro answer requests τ₂ ⟨hanswer, htaken⟩
            cases answer with
            | error e => exact ⟨(answer_of_failure hanswer.symm).symm, htaken⟩
            | ok _ =>
                refine .pure ⟨?_, (List.append_nil requests).symm ▸ htaken⟩
                exact (names_of_undoing hanswer.symm).symm

/-- A dry rollback prints the same course and asks the database to read only. -/
theorem rehearsed_rollback (h : migrator.backend.Reliable effect view)
    (hlogs : migrator.backend.Logs log) (hdry : migrator.dryRun = true)
    (hdialect : Dialect.byName? migrator.backend.dialect.name = some migrator.backend.dialect)
    (hsorted : sorted app migrations = .ok ordered) :
    Granting (Run.logOf log) (migrator.rollback app migrations target) τ fun answer _ τ' =>
      let course := courseAbove migrator.backend.dialect migrator.backend.now
        (view τ.database).ledger app target ordered
      answer = course.answer [] ∧ ∃ lines, τ'.lines.toList = τ.lines.toList ++ lines ∧
        course.IsShownBy migrator.backend.dialect "Migration rolled back successfully" lines := by
  rw [rollback_eq_of_sorted hsorted]
  refine Looked.bind (granting_entries h hlogs app) (asks_entries hlogs (fun _ => trivial) app)
    (asks_rollbackWithin hlogs fun _ _ => trivial) ?_ nofun
  rintro records τ₁ ⟨⟩ hlines _
  rw [recorded_eq, ← hlines]
  unfold courseAbove
  generalize List.find? _ _ = unknown?
  cases unknown? with
  | some unknown => exact .throw ⟨rfl, [], (List.append_nil _).symm, ⟨rfl, rfl⟩⟩
  | none =>
      unfold rollbackWithin
      refine Run.granting_ofExcept_bind ?_
      cases undoList (numberOfTarget target) { app }
        (Ledger.recorded (view τ.database).ledger app ordered) with
      | error e => exact ⟨rfl, [], (List.append_nil _).symm, ⟨rfl, rfl⟩⟩
      | ok undo =>
          dsimp only
          split
          · next hempty =>
              obtain rfl := List.isEmpty_iff.mp hempty
              exact Run.granting_emit_bind (.pure ⟨rfl, _, Array.toList_push,
                Course.IsShownBy.nil.append_message (show "Nothing to roll back" ≠ _ by decide)⟩)
          · refine Granting.bind (asks_revertAll hlogs (fun _ _ => trivial) _)
              (fun _ => .pure _) (Granting.mono (rehearsed_revertAll hdry hdialect) ?_)
            rintro answer _ τ₂ ⟨hanswer, lines, hlines, hshown⟩
            cases answer with
            | error e => exact ⟨(answer_of_failure hanswer.symm).symm, lines, hlines, hshown⟩
            | ok _ => exact .pure ⟨(names_of_undoing hanswer.symm).symm, lines, hlines, hshown⟩

end Rollback

/-! ### The agreement -/

/-- A dry run of a call only reads. -/
theorem onlyReads_of_dryRun {run : Run σ (List String)}
    (hasks : Asks (Run.logOf log) (fun request => ∃ app, request = .query (Ledger.query app)) run)
    (hlooks : Run.Looks view run) (s : σ) : run.OnlyReads log view s where
  requests := hasks.run ⟨s, #[]⟩
  view := by
    unfold finish
    cases hrun : run ⟨s, #[]⟩ with
    | ok names τ => exact hlooks.ok _ _ _ hrun
    | error e τ => exact hlooks.error _ _ _ hrun

section Agreement

variable (h : backend.Reliable effect view) (hlogs : backend.Logs log)
  (hdialect : Dialect.byName? backend.dialect.name = some backend.dialect)
  (hsorted : sorted app migrations = .ok ordered) (hnames : (migrations.map (·.name)).Nodup)
  (hclosed : (view s).saved = none)

include h hlogs hdialect hsorted hnames hclosed

/-- Two runs of applying, one real and one dry, take one course. -/
theorem apply_agrees (target : Option String)
    (hreal : Granted log s
      (finish (Migrator.apply { backend } app migrations target) ⟨s, #[]⟩).database)
    (hdry : Granted log s
      (finish (Migrator.apply { backend, dryRun := true } app migrations target)
        ⟨s, #[]⟩).database) :
    ∃ course : Course, course.IsCourseOf log backend.dialect (recordingOf backend.now)
        "Migration applied successfully" (Migrator.apply { backend } app migrations target)
        (Migrator.apply { backend, dryRun := true } app migrations target) s ∧
      course.IsPrintedBy backend.dialect backend.now app migrations false := by
  have htransactional := Dialect.transactional_of_byName? hdialect
  rcases apply_eq_of_sorted hsorted (σ := σ) with ⟨number, heq⟩ | heq
  · -- there is no such target
    rw [heq, heq]
    refine ⟨⟨[], some (.notFound app number)⟩, ⟨rfl, rfl, ?_, ⟨rfl, rfl⟩⟩, nofun⟩
    rw [show changesBetween log s (finish _ ⟨s, #[]⟩).database = [] from changesBetween_self]
    exact .failed (.inl rfl)
  · rw [heq] at hreal hdry
    rw [heq, heq]
    have htakes : Granting (Run.logOf log) (applyWithin { backend } app target ordered)
      ⟨s, #[]⟩ _ :=
      granting_applyWithin h hlogs rfl htransactional hsorted hnames hclosed
    have hshows : Granting (Run.logOf log)
      (applyWithin { backend, dryRun := true } app target ordered)
        ⟨s, #[]⟩ _ :=
      rehearsed_applyWithin h hlogs rfl hdialect hsorted hnames
    obtain ⟨hanswer, htaken⟩ := htakes.run hreal
    obtain ⟨hforetold, lines, hlines, hshown⟩ := hshows.run hdry
    refine ⟨_, ⟨hanswer, hforetold, htaken, ?_⟩, fun migration script hmem => ?_⟩
    · rw [hlines]
      exact hshown
    · exact migrationStatements_eq hsorted hnames hdialect (hasScript_of_applying
        (ahead_of_sorted hsorted hnames List.takeWhile_append_dropWhile.symm) hmem)

theorem rollback_agrees (hstrikes : ∀ migration ∈ migrations,
    backend.Strikes view app migration.name)
    (target : String)
    (hreal : Granted log s
      (finish (Migrator.rollback { backend } app migrations target) ⟨s, #[]⟩).database)
    (hdry : Granted log s
      (finish (Migrator.rollback { backend, dryRun := true } app migrations target)
        ⟨s, #[]⟩).database) :
    ∃ course : Course, course.IsCourseOf log backend.dialect strikingOf
        "Migration rolled back successfully" (Migrator.rollback { backend } app migrations target)
        (Migrator.rollback { backend, dryRun := true } app migrations target) s ∧
      (Ledger.recorded (view s).ledger app ordered <+: ordered →
        course.IsPrintedBy backend.dialect backend.now app migrations true) := by
  have htransactional := Dialect.transactional_of_byName? hdialect
  have htakes : Granting (Run.logOf log) (Migrator.rollback { backend } app migrations target)
      ⟨s, #[]⟩ _ :=
    granting_rollback h hlogs rfl htransactional hsorted hnames hclosed hstrikes
  have hshows : Granting (Run.logOf log)
      (Migrator.rollback { backend, dryRun := true } app migrations target) ⟨s, #[]⟩ _ :=
    rehearsed_rollback h hlogs rfl hdialect hsorted
  obtain ⟨hanswer, htaken⟩ := htakes.run hreal
  obtain ⟨hforetold, lines, hlines, hshown⟩ := hshows.run hdry
  refine ⟨_, ⟨hanswer, hforetold, htaken, ?_⟩, fun hprefix migration script hmem => ?_⟩
  · rw [hlines]
    exact hshown
  · obtain ⟨earlier, later, state, hplace, hscript⟩ := hasScript_of_undoing hsorted hnames hmem
    obtain ⟨rest, hrest⟩ := hprefix
    refine migrationStatements_eq hsorted hnames hdialect
      ⟨earlier, later ++ rest, state, ?_, hscript⟩
    rw [← hrest, hplace, List.append_assoc, List.cons_append]

/-- Let a reliable database speak SQLite or PostgreSQL, keep a log and have no transaction open, and
let an app have migrations with distinct names, whose rows can be removed. A dry run of applying
them, or of rolling back, only ever reads the ledger. If neither in it nor in the real run a
statement is refused, both give one answer: they take one course, of which the real run carries out
the statements, each migration in a transaction of its own with its row, and the dry run prints
them. They are the statements that are printed of each migration alone, as they are for rolling back
if the recorded migrations are the first ones. -/
theorem rehearsals_agree
    (hstrikes : ∀ migration ∈ migrations, backend.Strikes view app migration.name) :
    (∀ target : Option String,
      let real := Migrator.apply { backend } app migrations target
      let dry := Migrator.apply { backend, dryRun := true } app migrations target
      dry.OnlyReads log view s ∧
      (Granted log s (finish real ⟨s, #[]⟩).database →
        Granted log s (finish dry ⟨s, #[]⟩).database →
        ∃ course : Course,
          course.IsCourseOf log backend.dialect (recordingOf backend.now)
            "Migration applied successfully" real dry s ∧
          course.IsPrintedBy backend.dialect backend.now app migrations false)) ∧
    ∀ target : String,
      let real := Migrator.rollback { backend } app migrations target
      let dry := Migrator.rollback { backend, dryRun := true } app migrations target
      dry.OnlyReads log view s ∧
      (Granted log s (finish real ⟨s, #[]⟩).database →
        Granted log s (finish dry ⟨s, #[]⟩).database →
        ∃ course : Course,
          course.IsCourseOf log backend.dialect strikingOf
            "Migration rolled back successfully" real dry s ∧
          (Ledger.recorded (view s).ledger app ordered <+: ordered →
            course.IsPrintedBy backend.dialect backend.now app migrations true)) := by
  constructor
  · intro target real dry
    refine ⟨onlyReads_of_dryRun (asks_applyCall hlogs (fun app => ⟨app, rfl⟩) nofun
      migrations target) (looks_apply h rfl target) s, fun hreal hdry => ?_⟩
    exact apply_agrees h hlogs hdialect hsorted hnames hclosed target hreal hdry
  · intro target real dry
    refine ⟨onlyReads_of_dryRun (asks_rollbackCall hlogs (fun app => ⟨app, rfl⟩)
      nofun migrations target) (looks_rollback h rfl target) s, fun hreal hdry => ?_⟩
    exact rollback_agrees h hlogs hdialect hsorted hnames hclosed hstrikes target hreal hdry

end Agreement

/-! ### Notes, rehearsed and performed -/

/-- A database that writes down what it is asked to do, with a log. -/
def clerk : Backend (Store (List Statement) × List Event) :=
  (Store.backend .sqlite Operation.noteMoment writeDown fun _ _ => false).logging

def cleanDesk : Store (List Statement) × List Event := (⟨⟨[], [], none, 0⟩, 0⟩, [])

theorem sorted_notes : sorted "notes" [rankMigration, Operation.noteMigration]
    = .ok [Operation.noteMigration, rankMigration] :=
  inOrder_notes.sorted_eq

theorem answer_notes :
    (Migrator.apply { backend := clerk } "notes" [rankMigration, Operation.noteMigration]
      none).answerOf ⟨cleanDesk, #[]⟩ = .ok ["0001_initial", "0002_rank"] := by
  unfold Migrator.apply
  rw [sorted_notes]
  decide +kernel

theorem granted_notes (dryRun : Bool) : Granted Prod.snd cleanDesk
    (finish (Migrator.apply { backend := clerk, dryRun } "notes"
      [rankMigration, Operation.noteMigration] none) ⟨cleanDesk, #[]⟩).database := by
  unfold Migrator.apply Granted
  rw [sorted_notes]
  revert dryRun
  decide +kernel

/-- Both migrations are carried out as the dry run says. -/
theorem notes_rehearsed : ∃ course : Course,
    course.carried.map (·.1.name) = ["0001_initial", "0002_rank"] ∧
    course.IsCourseOf Prod.snd .sqlite (recordingOf Operation.noteMoment)
      "Migration applied successfully"
      (Migrator.apply { backend := clerk } "notes" [rankMigration, Operation.noteMigration] none)
      (Migrator.apply { backend := clerk, dryRun := true } "notes"
        [rankMigration, Operation.noteMigration] none) cleanDesk ∧
    course.IsPrintedBy .sqlite Operation.noteMoment "notes"
      [rankMigration, Operation.noteMigration] false := by
  have hreliable : clerk.Reliable writeDown (fun s => s.1.view) :=
    (Store.reliable .sqlite Operation.noteMoment writeDown fun _ _ => false).logging
  have hlogs : clerk.Logs Prod.snd := Backend.logging_logs _
  have hstrikes : ∀ migration ∈ [rankMigration, Operation.noteMigration],
      clerk.Strikes (fun s => s.1.view) "notes" migration.name :=
    fun migration hmem => hreliable.strike _ _ (inOrder_notes.numbered migration hmem)
  obtain ⟨course, hcourse, hprinted⟩ := ((rehearsals_agree hreliable hlogs rfl
    inOrder_notes.sorted_eq (by decide)
    (show (cleanDesk.1.view).saved = none from rfl) hstrikes).1 none).2 (granted_notes false)
    (granted_notes true)
  refine ⟨course, ?_, hcourse, hprinted⟩
  have hanswer := hcourse.answer.symm.trans answer_notes
  unfold Course.answer at hanswer
  split at hanswer
  · exact Except.ok.inj hanswer
  · cases hanswer

end Migrator

end SchemaHistory
