import SchemaHistory.Proofs.MigratorRequests

/-!
# Dry runs as rehearsals

A call of the migrator, a dry run of it and the printing of statements find the statements of a
migration in three ways: from the state that the call has come to, from that of a run which changes
nothing, and from the migrations before it alone. Where nothing is refused, they agree. The `Course`
of a call is what it comes to, told from the ledger and the list of migrations. The call and its dry
run both take it, and its statements are those that `Migrator.migrationStatements` gives.
-/

namespace SchemaHistory

/-- The texts that are printed before each message of a kind, after the message before it, with the
name in the message. `texts` are those printed already. -/
def Line.sections (closing : String) (texts : List String) : List Line → List (String × List String)
  | [] => []
  | .output text :: rest => sections closing (texts ++ [text]) rest
  | .message _ text details :: rest =>
    if text = closing then
      ((details.lookup "name").getD "", texts) :: sections closing [] rest
    else sections closing [] rest

def Line.about (text : String) (migration : Migration) : Line :=
  .message .info text [("app", migration.app), ("name", migration.name)]

namespace Migration

/-- What applying a migration comes to, if nothing is refused: its statements, and the state after
it. -/
def prospect (dialect : Dialect) (now : DateTime) (state : AppSchema) (migration : Migration) :
    Except MigrationError (List Statement × AppSchema) := do
  return (← migration.script dialect now state false, ← state.next migration)

section Prospect

variable {dialect : Dialect} {now : DateTime} {state : AppSchema} {migration : Migration}

theorem prospect_of_error {e : MigrationError} (h : state.steps migration = .error e) :
    migration.prospect dialect now state = .error e := by
  unfold prospect script
  rw [h]
  rfl

/-- Where the steps are known a migration has the script recorded from them. -/
theorem prospect_of_ok {steps : List AppSchema.Step} {next : AppSchema}
    (hsteps : state.steps migration = .ok steps) (hnext : state.next migration = .ok next) :
    migration.prospect dialect now state = (recording dialect now fun backend =>
      forwardAll backend (migration.withSteps steps)).map fun script => (script, next) := by
  unfold prospect script
  rw [hsteps, hnext]
  show (recording dialect now fun backend => forwardAll backend (migration.withSteps steps))
    >>= _ = _
  cases recording dialect now fun backend => forwardAll backend (migration.withSteps steps) <;> rfl

/-- The prospect of a migration is its script and the state after it. -/
theorem of_prospect {script : List Statement} {next : AppSchema}
    (h : migration.prospect dialect now state = .ok (script, next)) :
    migration.script dialect now state false = .ok script ∧ state.next migration = .ok next := by
  obtain ⟨script', hscript, h⟩ := Except.bind_eq_ok.mp h
  obtain ⟨next', hnext, h⟩ := Except.bind_eq_ok.mp h
  cases h
  exact ⟨hscript, hnext⟩

end Prospect

end Migration

namespace Migrator

variable {σ κ : Type} {log : σ → List Event} {effect : Statement → κ → Option κ}
  {view : σ → View κ} {migrator : Migrator σ} {τ : Transcript σ} {state : AppSchema}
  {migration : Migration} {app : String}

/-! ### One migration -/

section Real

variable (h : migrator.backend.Reliable effect view) (hlogs : migrator.backend.Logs log)
  (hdry : migrator.dryRun = false)
  (htransactional : migrator.backend.dialect.capabilities.transactional = true)

include h hlogs hdry htransactional

/-- Where everything is granted, a real run of a migration makes the requests of its prospect
between begin and commit. -/
theorem granting_perform (hclosed : (view τ.database).saved = none)
    (happ : migration.app = state.app) :
    Granting (Run.logOf log) (migrator.perform state migration) τ fun answer requests τ' =>
      match migration.prospect migrator.backend.dialect migrator.backend.now state with
      | .ok (script, next) => answer = .ok next ∧
          requests = transaction script (Ledger.entering migration.app migration.name
            migration.number migrator.backend.now) ∧
          (view τ'.database).saved = none ∧
          Ledger.Gains migration (view τ.database).ledger (view τ'.database).ledger
      | .error e => answer = .error e ∧ IsTakenBack requests := by
  unfold perform
  refine Run.granting_emit_bind (Run.granting_ofExcept_bind ?_)
  generalize hstart : (Transcript.mk τ.database _ : Transcript σ) = τ₁
  have hdatabase : τ₁.database = τ.database := by rw [← hstart]
  rw [← hdatabase] at hclosed ⊢
  cases hsteps : state.steps migration with
  | error e =>
      rw [Migration.prospect_of_error hsteps]
      exact ⟨rfl, Or.inl rfl⟩
  | ok steps =>
      obtain ⟨next, hnext⟩ := next_of_steps happ hsteps
      obtain ⟨script, answer, hrecording, hgranting⟩ := granting_transaction h hlogs hclosed
        (Scripted.forwardAll (migration.withSteps steps)) (asks_record hlogs fun _ => trivial)
        fun _ _ => granting_record h hlogs
      rw [Migration.prospect_of_ok hsteps hnext, hrecording]
      dsimp only
      rw [if_neg (by rw [hdry]; simp), if_pos htransactional]
      refine Granting.bind (asks_inTransaction hlogs (fun _ => trivial)
        (asks_apply hlogs (fun _ => trivial) _)) (fun _ => asks_next state migration)
        (hgranting.mono ?_)
      rintro answer requests τ' ⟨rfl, hdone⟩
      cases answer with
      | error e => exact ⟨rfl, hdone⟩
      | ok a =>
          obtain ⟨rfl, hsaved, hledger⟩ := hdone
          rw [hnext]
          refine Run.granting_ofExcept_bind (Run.granting_emit_bind (.pure ?_))
          exact ⟨rfl, List.append_nil _, hsaved, hledger⟩

/-- Undoing a migration whose row is there. -/
theorem granting_revert {steps : Migration.Steps} (hclosed : (view τ.database).saved = none)
    (hstrikes : migrator.backend.Strikes view migration.app migration.name)
    (hthere : (view τ.database).ledger.any (·.isFor migration.app migration.name) = true) :
    Granting (Run.logOf log) (migrator.revert migration steps) τ fun answer requests τ' =>
      match Migration.recording migrator.backend.dialect migrator.backend.now
        fun backend => Migration.backwardAll backend steps with
      | .ok script => answer = .ok () ∧
          requests = transaction script
            (.delete Ledger.table (Ledger.ofMigration migration.app migration.name)) ∧
          (view τ'.database).saved = none ∧
          Ledger.Loses migration.app migration.name (view τ.database).ledger
            (view τ'.database).ledger
      | .error e => answer = .error e ∧ IsTakenBack requests := by
  unfold revert
  refine Run.granting_emit_bind ?_
  generalize hstart : (Transcript.mk τ.database _ : Transcript σ) = τ₁
  have hdatabase : τ₁.database = τ.database := by rw [← hstart]
  rw [← hdatabase] at hclosed hthere ⊢
  obtain ⟨script, answer, hrecording, hgranting⟩ := granting_transaction h hlogs hclosed
    (Scripted.backwardAll steps) (asks_strike hlogs (fun _ => trivial) migration.name)
    fun _ hledger => granting_strike hlogs hstrikes (hledger ▸ hthere)
  rw [hrecording]
  dsimp only
  rw [if_neg (by rw [hdry]; simp), if_pos htransactional]
  refine Granting.bind (asks_inTransaction hlogs (fun _ => trivial)
    (asks_revertWork hlogs (fun _ => trivial) _)) (fun _ => Run.asks_emit _) (hgranting.mono ?_)
  rintro answer requests τ' ⟨rfl, hdone⟩
  cases answer with
  | error e => exact ⟨rfl, hdone⟩
  | ok a =>
      obtain ⟨rfl, hsaved, hledger⟩ := hdone
      refine Run.granting_emit_bind (.pure ?_)
      exact ⟨rfl, List.append_nil _, hsaved, hledger⟩

end Real

section DryRun

variable (hdry : migrator.dryRun = true)
  (hdialect : Dialect.byName? migrator.backend.dialect.name = some migrator.backend.dialect)

/-- Texts are printed one after the other. -/
theorem emit_all (texts : List String) (τ : Transcript σ) :
    ∃ lines, (texts.forM fun text => Run.emit (.output (text ++ ";"))) τ
        = .ok () { τ with lines } ∧
      lines.toList = τ.lines.toList ++ texts.map fun text => .output (text ++ ";") := by
  induction texts generalizing τ with
  | nil => exact ⟨τ.lines, rfl, (List.append_nil _).symm⟩
  | cons text texts ih =>
      obtain ⟨lines, hrun, hlines⟩ := ih { τ with lines := τ.lines.push (.output (text ++ ";")) }
      refine ⟨lines, hrun, ?_⟩
      rw [hlines, Array.toList_push, List.append_assoc]
      rfl

include hdialect

/-- What is printed of some work. -/
theorem emitStatements_eq (work : Backend Journal → Work Journal Unit) (τ : Transcript σ) :
    match Migration.recording migrator.backend.dialect migrator.backend.now work with
    | .ok script => ∃ lines, migrator.emitStatements work τ = .ok () { τ with lines } ∧
        lines.toList = τ.lines.toList
          ++ script.map fun statement => .output (statement.line migrator.backend.dialect)
    | .error e => migrator.emitStatements work τ = .error e τ := by
  have hemit : migrator.emitStatements work = (Run.ofExcept (Migration.statementsOf
      migrator.backend.dialect migrator.backend.now work) >>= fun statements =>
        statements.forM fun statement => Run.emit (.output (statement ++ ";"))) := by
    unfold emitStatements dialectNamed
    rw [hdialect]
    rfl
  rw [hemit, Migration.statementsOf_eq]
  cases Migration.recording migrator.backend.dialect migrator.backend.now work with
  | error e => rfl
  | ok script =>
      obtain ⟨lines, hrun, hlines⟩ := emit_all (script.map (·.text migrator.backend.dialect)) τ
      refine ⟨lines, hrun, ?_⟩
      rw [hlines, List.map_map]
      rfl

include hdry

/-- A dry run of one migration prints its statements between two messages. -/
theorem rehearsed_perform (happ : migration.app = state.app) (τ : Transcript σ) :
    match migration.prospect migrator.backend.dialect migrator.backend.now state with
    | .ok (script, next) => ∃ lines,
        migrator.perform state migration τ = .ok next { τ with lines } ∧
        lines.toList = τ.lines.toList ++ Line.about "Applying migration" migration ::
          (script.map fun statement => .output (statement.line migrator.backend.dialect))
          ++ [Line.about "Migration applied successfully" migration]
    | .error e => ∃ lines, migrator.perform state migration τ = .error e { τ with lines } ∧
        lines.toList = τ.lines.toList ++ [Line.about "Applying migration" migration] := by
  let τ₁ : Transcript σ :=
    { τ with lines := τ.lines.push (Line.about "Applying migration" migration) }
  have hstart : τ₁.lines.toList = τ.lines.toList ++ [Line.about "Applying migration" migration] :=
    Array.toList_push
  cases hsteps : state.steps migration with
  | error e =>
      rw [Migration.prospect_of_error hsteps]
      refine ⟨τ₁.lines, ?_, hstart⟩
      unfold perform
      rw [hsteps]
      rfl
  | ok steps =>
      obtain ⟨next, hnext⟩ := next_of_steps happ hsteps
      rw [Migration.prospect_of_ok hsteps hnext]
      have hperform : migrator.perform state migration τ = (migrator.emitStatements (fun recorder =>
          Migration.forwardAll recorder (migration.withSteps steps)) >>= fun _ => (do
            Run.emit (Line.about "Migration applied successfully" migration)
            return next : Run σ AppSchema)) τ₁ := by
        unfold perform
        rw [hsteps, hnext]
        simp only [hdry, if_true]
        rfl
      have hemit := emitStatements_eq hdialect
        (fun recorder => Migration.forwardAll recorder (migration.withSteps steps)) τ₁
      generalize Migration.recording _ _ _ = result at hemit ⊢
      cases result with
      | error e =>
          exact ⟨τ₁.lines, hperform.trans (bind_eq_error.mpr (.inl hemit)), hstart⟩
      | ok script =>
          obtain ⟨lines, hemit, hlines⟩ := hemit
          refine ⟨lines.push (Line.about "Migration applied successfully" migration),
            hperform.trans (bind_eq_ok.mpr ⟨(), _, hemit, rfl⟩), ?_⟩
          rw [Array.toList_push, hlines, hstart]
          simp

/-- A dry run of undoing a migration prints its statements between two messages. -/
theorem rehearsed_revert (migration : Migration) (steps : Migration.Steps) (τ : Transcript σ) :
    match Migration.recording migrator.backend.dialect migrator.backend.now
      fun backend => Migration.backwardAll backend steps with
    | .ok script => ∃ lines, migrator.revert migration steps τ = .ok () { τ with lines } ∧
        lines.toList = τ.lines.toList ++ Line.about "Rolling back migration" migration ::
          (script.map fun statement => .output (statement.line migrator.backend.dialect))
          ++ [Line.about "Migration rolled back successfully" migration]
    | .error e => ∃ lines, migrator.revert migration steps τ = .error e { τ with lines } ∧
        lines.toList = τ.lines.toList ++ [Line.about "Rolling back migration" migration] := by
  let τ₁ : Transcript σ :=
    { τ with lines := τ.lines.push (Line.about "Rolling back migration" migration) }
  have hstart : τ₁.lines.toList
      = τ.lines.toList ++ [Line.about "Rolling back migration" migration] := Array.toList_push
  have hrevert : migrator.revert migration steps τ = (migrator.emitStatements (fun recorder =>
      Migration.backwardAll recorder steps) >>= fun _ =>
        Run.emit (Line.about "Migration rolled back successfully" migration)) τ₁ := by
    unfold revert
    simp only [hdry, if_true]
    rfl
  have hemit := emitStatements_eq hdialect
    (fun recorder => Migration.backwardAll recorder steps) τ₁
  generalize Migration.recording _ _ _ = result at hemit ⊢
  cases result with
  | error e => exact ⟨τ₁.lines, hrevert.trans (bind_eq_error.mpr (.inl hemit)), hstart⟩
  | ok script =>
      obtain ⟨lines, hemit, hlines⟩ := hemit
      refine ⟨lines.push (Line.about "Migration rolled back successfully" migration),
        hrevert.trans (bind_eq_ok.mpr ⟨(), _, hemit, rfl⟩), ?_⟩
      rw [Array.toList_push, hlines, hstart]
      simp

end DryRun

end Migrator

end SchemaHistory
