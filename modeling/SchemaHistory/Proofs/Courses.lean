import SchemaHistory.Proofs.Rehearsals

/-!
# The course of a call

What a call comes to, if nothing is refused, is its `Course`: the migrations that are carried out
with their statements, and the error at which it stops, if there is one. It can be told from the
ledger and the list of migrations. The call takes it and a dry run of the call shows it.
-/

namespace SchemaHistory

/-! ### What a call does -/

/-- The migrations that a call carries out, with their statements, and the error at which it
stops. -/
structure Course where
  carried : List (Migration × List Statement)
  failure : Option MigrationError

namespace Course

def cons (migration : Migration) (script : List Statement) (course : Course) : Course :=
  { course with carried := (migration, script) :: course.carried }

/-- The answer of a call that has gone through some migrations already. -/
def answer (done : List String) (course : Course) : Except MigrationError (List String) :=
  match course.failure with
  | none => .ok (done ++ course.carried.map (·.1.name))
  | some e => .error e

/-- Whether a call succeeds. -/
def verdict (course : Course) : Except MigrationError Unit :=
  match course.failure with
  | none => .ok ()
  | some e => .error e

def ofApplying (dialect : Dialect) (now : DateTime) (ledger : List LedgerEntry)
    (recorded : List String) (state : AppSchema) (done : List String) : List Migration → Course
  | [] => ⟨[], none⟩
  | migration :: rest =>
    if recorded.contains migration.name then
      match state.next migration with
      | .ok next => ofApplying dialect now ledger recorded next done rest
      | .error e => ⟨[], some e⟩
    else
      match Migrator.requirement ledger done migration with
      | .error e => ⟨[], some e⟩
      | .ok () =>
        match migration.prospect dialect now state with
        | .error e => ⟨[], some (.during migration.app migration.name e)⟩
        | .ok (script, next) =>
          (ofApplying dialect now ledger recorded next (done ++ [migration.name]) rest).cons
            migration script

def ofUndoing (dialect : Dialect) (now : DateTime) : List (Migration × Migration.Steps) → Course
  | [] => ⟨[], none⟩
  | (migration, steps) :: rest =>
    match Migration.recording dialect now fun backend => Migration.backwardAll backend steps with
    | .error e => ⟨[], some (.during migration.app migration.name e)⟩
    | .ok script => (ofUndoing dialect now rest).cons migration script

/-- What is asked for when migrations are carried out, each as one transaction. -/
def transactions (closing : Migration → Statement) (carried : List (Migration × List Statement)) :
    List Request :=
  carried.flatMap fun (migration, script) => Migrator.transaction script (closing migration)

/-- What is asked for is the transactions of a course. Where it stops, there may be another that is
taken back. -/
structure IsTakenBy (closing : Migration → Statement) (course : Course)
    (requests : List Request) : Prop where
  split : ∃ broken, requests = transactions closing course.carried ++ broken ∧
    Migrator.IsTakenBack broken ∧ (course.failure = none → broken = [])

/-- What is printed is the statements of a course. They stand before a message for each
migration. -/
structure IsShownBy (dialect : Dialect) (closing : String) (course : Course) (lines : List Line) :
    Prop where
  sections : Line.sections closing [] lines = course.carried.map fun (migration, script) =>
    (migration.name, script.map (·.line dialect))
  printed : (lines.filterMap fun
      | .output text => some text
      | .message .. => none)
    = course.carried.flatMap fun (_, script) => script.map (·.line dialect)

/-! ### Courses part by part -/

section Parts

variable {closing : Migration → Statement} {course : Course} {migration : Migration}
  {script : List Statement} {requests : List Request} {dialect : Dialect} {text opening : String}
  {lines : List Line}

theorem IsTakenBy.nil : IsTakenBy closing ⟨[], none⟩ [] := ⟨[], rfl, .inl rfl, fun _ => rfl⟩

/-- A course that fails at once is taken by requests that are taken back. -/
theorem IsTakenBy.failed {e : MigrationError} (h : Migrator.IsTakenBack requests) :
    IsTakenBy closing ⟨[], some e⟩ requests := ⟨requests, rfl, h, nofun⟩

/-- A migration that is carried out adds its transaction in front. -/
theorem IsTakenBy.cons (h : IsTakenBy closing course requests) :
    IsTakenBy closing (course.cons migration script)
      (Migrator.transaction script (closing migration) ++ requests) := by
  obtain ⟨broken, rfl, hbroken, hend⟩ := h.split
  exact ⟨broken, (List.append_assoc ..).symm, hbroken, hend⟩

/-- The names come in the order in which migrations are carried out. -/
theorem answer_cons (done : List String) : (course.cons migration script).answer done
    = course.answer (done ++ [migration.name]) := by
  unfold answer Course.cons
  rw [List.map_cons, List.append_assoc]
  rfl

/-- Lines of output join the section that is open. -/
theorem sections_outputs (texts outputs : List String) (rest : List Line) :
    Line.sections text texts (outputs.map .output ++ rest)
      = Line.sections text (texts ++ outputs) rest := by
  induction outputs generalizing texts with
  | nil => rw [List.append_nil]; rfl
  | cons output outputs ih =>
      refine (ih (texts ++ [output])).trans ?_
      rw [List.append_assoc]
      rfl

theorem IsShownBy.nil : IsShownBy dialect text ⟨[], none⟩ [] := ⟨rfl, rfl⟩

/-- A message of another kind does not count. -/
theorem IsShownBy.message {level : Level} {details : List (String × String)}
    (hother : opening ≠ text)
    (h : IsShownBy dialect text course lines) :
    IsShownBy dialect text course (.message level opening details :: lines) := by
  constructor
  · unfold Line.sections
    rw [if_neg hother]
    exact h.sections
  · exact h.printed

/-- Neither does one at the end. -/
theorem IsShownBy.append_message {level : Level} {details : List (String × String)}
    (hother : opening ≠ text) (h : IsShownBy dialect text course lines) :
    IsShownBy dialect text course (lines ++ [.message level opening details]) := by
  have hsections (texts : List String) :
      Line.sections text texts (lines ++ [.message level opening details])
        = Line.sections text texts lines := by
    clear h
    induction lines generalizing texts with
    | nil =>
        simp only [List.nil_append, Line.sections]
        rw [if_neg hother]
    | cons line lines ih =>
        cases line with
        | output output => exact ih _
        | message level other details =>
            simp only [List.cons_append, Line.sections, ih]
  constructor
  · rw [hsections, h.sections]
  · rw [List.filterMap_append, h.printed]
    exact List.append_nil _

/-- Of a migration that fails only the opening message is shown. -/
theorem IsShownBy.failed {e : MigrationError} (hother : opening ≠ text) :
    IsShownBy dialect text ⟨[], some e⟩ [Line.about opening migration] :=
  .message hother ⟨rfl, rfl⟩

/-- A migration that is carried out is shown between its two messages. -/
theorem IsShownBy.cons (hother : opening ≠ text) (h : IsShownBy dialect text course lines) :
    IsShownBy dialect text (course.cons migration script)
      (Line.about opening migration ::
        (script.map fun statement => .output (statement.line dialect))
        ++ Line.about text migration :: lines) := by
  have houtputs : (script.map fun statement => Line.output (statement.line dialect))
      = (script.map (·.line dialect)).map .output := by
    rw [List.map_map]
    rfl
  rw [houtputs, List.cons_append]
  refine .message hother ⟨?_, ?_⟩
  · rw [sections_outputs]
    unfold Line.about Line.sections
    rw [if_pos rfl, h.sections]
    rfl
  · rw [List.filterMap_append, List.filterMap_map]
    show List.filterMap some _ ++ List.filterMap _ lines = _
    rw [List.filterMap_some, h.printed]
    rfl

end Parts

end Course

namespace Ledger

/-- A ledger has the rows of another and those of some migrations of an app. -/
def GoesOn (app : String) (before : List LedgerEntry) (done : List String)
    (ledger : List LedgerEntry) : Prop :=
  ∀ otherApp name, ledger.any (·.isFor otherApp name)
    = (before.any (·.isFor otherApp name) || otherApp == app && done.contains name)

theorem GoesOn.refl {app : String} {before : List LedgerEntry} : GoesOn app before [] before := by
  intro otherApp name
  simp

/-- The row of a migration goes on with those of its app. -/
theorem GoesOn.gains {app : String} {before ledger after : List LedgerEntry} {done : List String}
    {migration : Migration} (h : GoesOn app before done ledger) (happ : migration.app = app)
    (hgains : Gains migration ledger after) :
    GoesOn app before (done ++ [migration.name]) after := by
  obtain ⟨entry, ⟨hentryApp, hentryName, -⟩, rfl⟩ := hgains
  intro otherApp name
  rw [List.any_append, h otherApp name, List.any_cons, List.any_nil, Bool.or_false, Bool.or_assoc,
    LedgerEntry.isFor, hentryApp, hentryName, happ, List.contains_append, List.contains_cons]
  simp only [List.contains_nil, Bool.or_false, Bool.and_or_distrib_left]
  rw [Bool.beq_comm (a := app), Bool.beq_comm (a := migration.name)]

end Ledger

namespace Migrator

variable {σ κ : Type} {log : σ → List Event} {effect : Statement → κ → Option κ}
  {view : σ → View κ} {migrator : Migrator σ} {τ : Transcript σ} {state : AppSchema}
  {migration : Migration} {app : String} {ordered rest : List Migration}
  {recorded done : List String} {ledger : List LedgerEntry}

/-- The rows that a call has added itself make no difference to what a migration requires. -/
theorem requirement_eq (happ : migration.app = app) {current : List LedgerEntry}
    (hledger : Ledger.GoesOn app ledger done current) :
    requirement current done migration = requirement ledger done migration := by
  have hmet : isMet current done migration = isMet ledger done migration := by
    funext needed
    unfold isMet
    rw [hledger, happ]
    cases needed.1 == app && done.contains needed.2 <;> simp
  unfold requirement
  rw [hmet]

/-- The row that a migration gets when it is applied. -/
def recordingOf (now : DateTime) (migration : Migration) : Statement :=
  Ledger.entering migration.app migration.name migration.number now

/-- The rows that a migration loses when it is undone. -/
def strikingOf (migration : Migration) : Statement :=
  .delete Ledger.table (Ledger.ofMigration migration.app migration.name)

/-! ### Applying -/

/-- A migration that is not recorded is applied, if what it requires is there, and then the rest. -/
theorem granting_unrecorded (h : migrator.backend.Reliable effect view)
    (hlogs : migrator.backend.Logs log) (hrecorded : ¬recorded.contains migration.name = true)
    {expected : Except MigrationError Unit}
    (hexpected : requirement (view τ.database).ledger done migration = expected)
    {post : Except MigrationError (List String) → List Request → Transcript σ → Prop}
    (hmet : ∀ τ₁, expected = .ok () → τ₁.lines = τ.lines → view τ₁.database = view τ.database →
      Granting (Run.logOf log) (do
        let next ← Run.inContext migration (migrator.perform state migration)
        migrator.applyAll recorded next (done ++ [migration.name]) rest) τ₁ post)
    (hmissing : ∀ e τ₁, expected = .error e → τ₁.lines = τ.lines →
      view τ₁.database = view τ.database → post (.error e) [] τ₁) :
    Granting (Run.logOf log)
      (migrator.applyAll recorded state done (migration :: rest)) τ post := by
  unfold applyAll
  rw [if_neg hrecorded]
  have hperform : Asks (Run.logOf log) (fun _ => True) (migrator.perform state migration) :=
    asks_perform hlogs fun _ _ => trivial
  have hrest (next : AppSchema) : Asks (Run.logOf log) (fun _ => True)
      (migrator.applyAll recorded next (done ++ [migration.name]) rest) :=
    asks_applyAll hlogs (fun _ => trivial) (fun _ _ => trivial) rest
  exact Looked.bind (hexpected ▸ granting_requireApplied h hlogs done)
    (asks_requireApplied hlogs (fun _ => trivial) done) (fun _ => hperform.adapt.bind hrest)
    (fun _ => hmet) hmissing

/-- Where nothing is refused, applying takes the course that the operations foretell. -/
theorem granting_applyAll (h : migrator.backend.Reliable effect view)
    (hlogs : migrator.backend.Logs log) (hdry : migrator.dryRun = false)
    (htransactional : migrator.backend.dialect.capabilities.transactional = true)
    (hahead : Ahead app ordered state rest) (hclosed : (view τ.database).saved = none)
    (hledger : Ledger.GoesOn app ledger done (view τ.database).ledger) :
    Granting (Run.logOf log) (migrator.applyAll recorded state done rest) τ fun answer requests _ =>
      let course := Course.ofApplying migrator.backend.dialect migrator.backend.now ledger recorded
        state done rest
      answer = course.answer done ∧
        course.IsTakenBy (recordingOf migrator.backend.now) requests := by
  induction rest generalizing state done τ with
  | nil =>
      refine .pure ⟨?_, .nil⟩
      exact congrArg Except.ok (List.append_nil done).symm
  | cons migration rest ih =>
      by_cases hrecorded : recorded.contains migration.name = true
      · unfold applyAll Course.ofApplying
        rw [if_pos hrecorded, if_pos hrecorded]
        refine Run.granting_emit_bind (Run.granting_ofExcept_bind ?_)
        cases hnext : state.next migration with
        | error e => exact ⟨rfl, .failed (.inl rfl)⟩
        | ok next => exact ih (hahead.tail hnext) hclosed hledger
      · unfold Course.ofApplying
        rw [if_neg hrecorded]
        have happ : migration.app = app := hahead.app_eq _ (hahead.mem List.mem_cons_self)
        refine granting_unrecorded h hlogs hrecorded (requirement_eq happ hledger) ?_ ?_
        · rintro τ₁ hmet - hview
          rw [hmet]
          rw [← hview] at hclosed hledger
          refine Granting.bind (asks_perform hlogs fun _ _ => trivial).adapt
            (fun _ => asks_applyAll hlogs (fun _ => trivial) (fun _ _ => trivial) rest) (.adapt ?_)
          refine (granting_perform h hlogs hdry htransactional hclosed
            (happ.trans hahead.state_app_eq.symm)).mono fun answer requests τ₂ hpost => ?_
          dsimp only
          generalize hprospect : migration.prospect _ _ _ = result at hpost
          cases result with
          | error e =>
              obtain ⟨rfl, hbroken⟩ := hpost
              exact ⟨rfl, .failed hbroken⟩
          | ok found =>
              obtain ⟨script, next⟩ := found
              obtain ⟨rfl, rfl, hclosed', hgains⟩ := hpost
              have hnext := (Migration.of_prospect hprospect).2
              refine (ih (hahead.tail hnext) hclosed' (hledger.gains happ hgains)).mono ?_
              rintro answer requests _ ⟨rfl, htaken⟩
              exact ⟨(Course.answer_cons done).symm, htaken.cons⟩
        · intro e τ₁ hmissing _ _
          rw [hmissing]
          exact ⟨rfl, .failed (.inl rfl)⟩

/-- A dry run of applying shows the course that applying takes. -/
theorem rehearsed_applyAll (h : migrator.backend.Reliable effect view)
    (hlogs : migrator.backend.Logs log) (hdry : migrator.dryRun = true)
    (hdialect : Dialect.byName? migrator.backend.dialect.name = some migrator.backend.dialect)
    (hahead : Ahead app ordered state rest) (hledger : (view τ.database).ledger = ledger) :
    Granting (Run.logOf log) (migrator.applyAll recorded state done rest) τ fun answer _ τ' =>
      let course := Course.ofApplying migrator.backend.dialect migrator.backend.now ledger recorded
        state done rest
      answer = course.answer done ∧ ∃ lines, τ'.lines.toList = τ.lines.toList ++ lines ∧
        course.IsShownBy migrator.backend.dialect "Migration applied successfully" lines := by
  have hskipping : "Migration already applied, skipping" ≠ "Migration applied successfully" := by
    decide
  have hopening : "Applying migration" ≠ "Migration applied successfully" := by decide
  induction rest generalizing state done τ with
  | nil =>
      refine .pure ⟨?_, [], (List.append_nil _).symm, .nil⟩
      exact congrArg Except.ok (List.append_nil done).symm
  | cons migration rest ih =>
      by_cases hrecorded : recorded.contains migration.name = true
      · unfold applyAll Course.ofApplying
        rw [if_pos hrecorded, if_pos hrecorded]
        refine Run.granting_emit_bind (Run.granting_ofExcept_bind ?_)
        cases hnext : state.next migration with
        | error e =>
            exact ⟨rfl, _, Array.toList_push, .message hskipping ⟨rfl, rfl⟩⟩
        | ok next =>
            dsimp only
            refine Granting.mono (ih (hahead.tail hnext) hledger) ?_
            rintro answer _ τ' ⟨rfl, lines, hlines, hshown⟩
            rw [Array.toList_push, List.append_assoc, List.singleton_append] at hlines
            exact ⟨rfl, _, hlines, .message hskipping hshown⟩
      · unfold Course.ofApplying
        rw [if_neg hrecorded]
        have happ : migration.app = app := hahead.app_eq _ (hahead.mem List.mem_cons_self)
        refine granting_unrecorded h hlogs hrecorded
          (congrArg (requirement · done migration) hledger)
          ?_ ?_
        · intro τ₁ hmet hlines hview
          rw [hmet]
          rw [← hview] at hledger
          have hshown := rehearsed_perform hdry hdialect (happ.trans hahead.state_app_eq.symm) τ₁
          rw [hlines] at hshown
          dsimp only
          generalize hprospect : migration.prospect _ _ _ = result at hshown
          cases result with
          | error e =>
              obtain ⟨lines, hperform, hlines⟩ := hshown
              refine Run.granting_bind_of_error (adaptExcept_eq_error.mpr ⟨e, hperform, rfl⟩) ?_
              exact ⟨rfl, _, hlines, .failed hopening⟩
          | ok found =>
              obtain ⟨script, next⟩ := found
              obtain ⟨lines, hperform, hlines⟩ := hshown
              refine Run.granting_bind_of_ok (adaptExcept_eq_ok.mpr hperform) ?_
              have hnext := (Migration.of_prospect hprospect).2
              refine Granting.mono (ih (hahead.tail hnext) hledger) ?_
              rintro answer _ τ' ⟨rfl, later, hlater, hshown⟩
              refine ⟨(Course.answer_cons done).symm, _, ?_, hshown.cons hopening⟩
              rw [hlater, hlines]
              simp
        · intro e τ₁ hmissing hlines _
          rw [hmissing]
          exact ⟨rfl, [], by rw [hlines, List.append_nil], ⟨rfl, rfl⟩⟩

/-! ### Undoing -/

section Undoing

variable {undo : List (Migration × Migration.Steps)}

theorem granting_revertAll (h : migrator.backend.Reliable effect view)
    (hlogs : migrator.backend.Logs log) (hdry : migrator.dryRun = false)
    (htransactional : migrator.backend.dialect.capabilities.transactional = true)
    (hclosed : (view τ.database).saved = none)
    (hstrikes : ∀ entry ∈ undo, migrator.backend.Strikes view entry.1.app entry.1.name)
    (hthere : ∀ entry ∈ undo,
      (view τ.database).ledger.any (·.isFor entry.1.app entry.1.name) = true)
    (hdistinct : undo.Pairwise fun a b => a.1.name ≠ b.1.name) :
    Granting (Run.logOf log) (migrator.revertAll undo) τ fun answer requests _ =>
      let course := Course.ofUndoing migrator.backend.dialect migrator.backend.now undo
      answer = course.verdict ∧ course.IsTakenBy strikingOf requests := by
  induction undo generalizing τ with
  | nil => exact .pure ⟨rfl, .nil⟩
  | cons entry rest ih =>
      obtain ⟨migration, steps⟩ := entry
      obtain ⟨hhere, hthere⟩ := List.forall_mem_cons.mp hthere
      obtain ⟨hstrike, hstrikes⟩ := List.forall_mem_cons.mp hstrikes
      obtain ⟨hother, hdistinct⟩ := List.pairwise_cons.mp hdistinct
      have hrevert : Asks (Run.logOf log) (fun _ => True) (migrator.revert migration steps) :=
        asks_revert hlogs fun _ _ => trivial
      unfold revertAll Course.ofUndoing
      refine Granting.bind hrevert.adapt
        (fun _ => asks_revertAll hlogs (fun _ _ => trivial) rest) (.adapt ?_)
      refine (granting_revert h hlogs hdry htransactional hclosed hstrike hhere).mono
        fun answer requests τ₁ hpost => ?_
      generalize Migration.recording _ _ _ = result at hpost ⊢
      cases result with
      | error e =>
          obtain ⟨rfl, hbroken⟩ := hpost
          exact ⟨rfl, .failed hbroken⟩
      | ok script =>
          obtain ⟨rfl, rfl, hclosed', hloses⟩ := hpost
          -- the rows of the other migrations stay
          have hstill : ∀ entry ∈ rest,
              (view τ₁.database).ledger.any (·.isFor entry.1.app entry.1.name) = true := by
            intro entry hentry
            obtain ⟨row, hrow, hfor⟩ := List.any_eq_true.mp (hthere entry hentry)
            refine List.any_eq_true.mpr ⟨row, ?_, hfor⟩
            rw [hloses, List.mem_filter]
            refine ⟨hrow, ?_⟩
            have hname : row.name = entry.1.name := by
              simpa using (Bool.and_eq_true_iff.mp hfor).2
            simp [LedgerEntry.isFor, hname, (hother entry hentry).symm]
          refine (ih hclosed' hstrikes hstill hdistinct).mono ?_
          rintro answer requests _ ⟨rfl, htaken⟩
          exact ⟨rfl, htaken.cons⟩

/-- A dry run of undoing shows the course that undoing takes. -/
theorem rehearsed_revertAll (hdry : migrator.dryRun = true)
    (hdialect : Dialect.byName? migrator.backend.dialect.name = some migrator.backend.dialect) :
    Granting (Run.logOf log) (migrator.revertAll undo) τ fun answer _ τ' =>
      let course := Course.ofUndoing migrator.backend.dialect migrator.backend.now undo
      answer = course.verdict ∧ ∃ lines, τ'.lines.toList = τ.lines.toList ++ lines ∧
        course.IsShownBy migrator.backend.dialect "Migration rolled back successfully" lines := by
  have hopening : "Rolling back migration" ≠ "Migration rolled back successfully" := by decide
  induction undo generalizing τ with
  | nil => exact .pure ⟨rfl, [], (List.append_nil _).symm, .nil⟩
  | cons entry rest ih =>
      obtain ⟨migration, steps⟩ := entry
      unfold revertAll Course.ofUndoing
      have hshown := rehearsed_revert hdry hdialect migration steps τ
      generalize Migration.recording _ _ _ = result at hshown ⊢
      cases result with
      | error e =>
          obtain ⟨lines, hrevert, hlines⟩ := hshown
          refine Run.granting_bind_of_error (adaptExcept_eq_error.mpr ⟨e, hrevert, rfl⟩) ?_
          exact ⟨rfl, _, hlines, .failed hopening⟩
      | ok script =>
          obtain ⟨lines, hrevert, hlines⟩ := hshown
          refine Run.granting_bind_of_ok (adaptExcept_eq_ok.mpr hrevert) (Granting.mono ih ?_)
          rintro answer _ τ' ⟨rfl, later, hlater, hshown⟩
          refine ⟨rfl, _, ?_, hshown.cons hopening⟩
          rw [hlater, hlines]
          simp

end Undoing

end Migrator

end SchemaHistory
