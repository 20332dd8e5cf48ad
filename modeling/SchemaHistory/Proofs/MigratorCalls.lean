import SchemaHistory.Proofs.MigratorRuns
import SchemaHistory.Proofs.NameOrder

/-!
# Calls of the migrator

Which migrations a call of `Migrator.apply` or `Migrator.rollback` is about can be told from the
ledger and the target: those that are `pending`, and those that are `above` the target. A call that
succeeds has carried out all of them and names them; one that fails has carried out some of the
first ones.
-/

namespace SchemaHistory

namespace Migration

/-- The migrations of an app in the order of their names, no two of which are alike. That a name
begins with a number is seen to when a migration is made (`ofName_eq_ok`, `read_eq_ok`). -/
structure InOrder (app : String) (migrations ordered : List Migration) : Prop where
  perm : ordered.Perm migrations
  ascending : ordered.Pairwise (·.name < ·.name)
  app_eq : ∀ migration ∈ migrations, migration.app = app
  numbered : ∀ migration ∈ migrations, migration.Numbered

variable {app : String} {migrations ordered : List Migration} {migration : Migration}

/-- Sorting gives the migrations in this order. -/
theorem InOrder.sorted_eq (h : InOrder app migrations ordered) :
    Migrator.sorted app migrations = .ok ordered :=
  Migrator.sorted_eq_ok h.app_eq h.perm h.ascending

/-- Sorted migrations belong to the app that was asked for. -/
theorem InOrder.app_of_mem (h : InOrder app migrations ordered) (hmem : migration ∈ ordered) :
    migration.app = app :=
  h.app_eq migration (h.perm.mem_iff.mp hmem)

theorem InOrder.numbered_of_mem (h : InOrder app migrations ordered) (hmem : migration ∈ ordered) :
    migration.Numbered :=
  h.numbered migration (h.perm.mem_iff.mp hmem)

theorem InOrder.nodup (h : InOrder app migrations ordered) : ordered.Nodup := by
  refine h.ascending.imp fun hlt => ?_
  rintro rfl
  exact lt_irrefl _ hlt

end Migration

namespace Ledger

/-- The migrations that have a row. -/
def recorded (ledger : List LedgerEntry) (app : String) (ordered : List Migration) :
    List Migration :=
  ordered.filter fun migration => ledger.any (·.isFor app migration.name)

/-- The migrations within a target that have no row. -/
def pending (ledger : List LedgerEntry) (app : String) (target : Option String)
    (ordered : List Migration) : List Migration :=
  (ordered.filter (Migrator.isWithin (target.map Migrator.numberOfTarget))).filter fun migration =>
    !ledger.any (·.isFor app migration.name)

/-- The recorded migrations above a target, the last one first. -/
def above (ledger : List LedgerEntry) (app target : String) (ordered : List Migration) :
    List Migration :=
  ((recorded ledger app ordered).filter fun migration =>
    Migrator.numberOfTarget target < migration.number).reverse

variable {ledger : List LedgerEntry} {app name : String}

/-- A migration has a row if the rows of its app have its name. -/
theorem any_name_eq :
    (ledger.filter (·.app == app)).any (·.name == name) = ledger.any (·.isFor app name) := by
  rw [List.any_filter]
  rfl

/-- The names of an app in the ledger tell whether a migration is recorded. -/
theorem contains_name_eq :
    ((ledger.filter (·.app == app)).map (·.name)).contains name
    = ledger.any (·.isFor app name) := by
  rw [← any_name_eq, List.contains_eq_any_beq, List.any_map]
  exact congrArg (List.any _) (funext fun entry => by simp [eq_comm])

end Ledger

namespace Migrator

variable {σ κ : Type} {migrator : Migrator σ} {effect : Statement → κ → Option κ}
  {view : σ → View κ}
  {τ τ' : Transcript σ} {e : MigrationError} {app : String} {migrations ordered : List Migration}

/-- From the empty state the replay meets the sorted migrations one after the other. -/
theorem Ahead.of_inOrder (h : Migration.InOrder app migrations ordered)
    {rest later : List Migration}
    (hrest : ordered = rest ++ later) : Ahead app ordered { app } rest where
  place := ⟨[], later, hrest, rfl⟩
  ascending := h.ascending
  app_eq _ hmem := h.app_of_mem hmem

/-! ### Applying -/

section Apply

variable {target : Option String}

/-- The list that applying works through, less those that it skips. -/
theorem pending_eq (h : Migration.InOrder app migrations ordered) (ledger : List LedgerEntry) :
    ((ordered.takeWhile (isWithin (target.map numberOfTarget))).filter fun migration =>
      !((ledger.filter (·.app == app)).map (·.name)).contains migration.name)
      = Ledger.pending ledger app target ordered := by
  rw [takeWhile_isWithin (fun _ => h.numbered_of_mem) h.ascending]
  simp only [Ledger.contains_name_eq]
  rfl

/-- What applying does once it is known that the target is one of the migrations. -/
def applyWithin (migrator : Migrator σ) (app : String) (target : Option String)
    (ordered : List Migration) : Run σ (List String) := do
  let recorded ← migrator.entries app
  let applied ← migrator.applyAll (recorded.map (·.name)) { app } []
    (ordered.takeWhile (isWithin (target.map numberOfTarget)))
  if applied.isEmpty then Run.emit (.message .info "No migrations to apply" [("app", app)])
  return applied

/-- Once the migrations are sorted, applying fails for a target that is not there or goes on within
them, whatever the database. -/
theorem apply_eq_of_sorted (hsorted : sorted app migrations = .ok ordered) :
    (∃ number, ∀ migrator : Migrator σ,
      migrator.apply app migrations target = throw (.notFound app number)) ∨
    ∀ migrator : Migrator σ,
      migrator.apply app migrations target = migrator.applyWithin app target ordered := by
  unfold apply applyWithin
  simp only [hsorted, Run.ofExcept_ok_bind]
  cases target.map numberOfTarget with
  | none => exact .inr fun _ => rfl
  | some number =>
      dsimp only
      by_cases hunknown : (!ordered.any (·.number == number)) = true
      · simp only [if_pos hunknown]
        exact .inl ⟨number, fun _ => rfl⟩
      · simp only [if_neg hunknown]
        exact .inr fun _ => trivial

/-- A call of applying finds no target of that number or goes on within the sorted migrations. -/
theorem apply_eq (migrator : Migrator σ) (horder : Migration.InOrder app migrations ordered) :
    migrator.apply app migrations target = migrator.applyWithin app target ordered ∨
      ∃ number, migrator.apply app migrations target = throw (.notFound app number) := by
  refine (apply_eq_of_sorted horder.sorted_eq).symm.imp (fun heq => heq migrator) ?_
  exact fun ⟨number, heq⟩ => ⟨number, heq migrator⟩

/-- What was applied is returned, whatever is written to the console. -/
theorem applied_of_ok {applied names : List String} {line : Line}
    (hok : (do
      if applied.isEmpty then Run.emit line
      return applied : Run σ (List String)) τ = .ok names τ') :
    names = applied ∧ τ'.database = τ.database := by
  dsimp only at hok
  split at hok <;> cases hok <;> exact ⟨rfl, rfl⟩

/-- How a call of applying goes. If its target is one of its migrations and the ledger can be read,
it works through its list. -/
inductive Applying (view : σ → View κ) (migrator : Migrator σ) (app : String)
  (target : Option String)
    (ordered : List Migration) (τ : Transcript σ) :
    Except MigrationError (List String) → Transcript σ → Prop where
  | unknown {number : String} :
      Applying view migrator app target ordered τ (.error (.notFound app number)) τ
  | unread {e : MigrationError} {τ' : Transcript σ} :
      migrator.entries app τ = .error e τ' →
      Applying view migrator app target ordered τ (.error e) τ'
  | worked {τ₁ τ₂ τ' : Transcript σ} {answer : Except MigrationError (List String)} :
      view τ₁.database = view τ.database →
      migrator.applyAll (((view τ.database).ledger.filter (·.app == app)).map (·.name)) { app } []
        (ordered.takeWhile (isWithin (target.map numberOfTarget))) τ₁
          = Backend.answered answer τ₂ →
      τ'.database = τ₂.database →
      Applying view migrator app target ordered τ answer τ'

/-- However a call of applying ends, it ends as one of the cases of `Applying`. -/
theorem applying (h : migrator.backend.Reliable effect view) (hdry : migrator.dryRun = false)
    (horder : Migration.InOrder app migrations ordered)
    {answer : Except MigrationError (List String)}
    (hrun : migrator.apply app migrations target τ = Backend.answered answer τ') :
    Applying view migrator app target ordered τ answer τ' := by
  rcases apply_eq migrator horder with heq | ⟨number, heq⟩
  · rw [heq] at hrun
    rcases bind_eq_answered.mp hrun with ⟨records, τ₁, hentries, hrun⟩ | ⟨e, rfl, hentries⟩
    swap
    · exact .unread hentries
    obtain ⟨rfl, hsame⟩ := entries_ok h hdry hentries
    rcases bind_eq_answered.mp hrun with ⟨applied, τ₂, hall, hrun⟩ | ⟨e, rfl, hall⟩
    swap
    · exact .worked hsame hall rfl
    cases answer with
    | ok names =>
        obtain ⟨rfl, hdatabase⟩ := applied_of_ok hrun
        exact .worked hsame hall hdatabase
    | error e =>
        dsimp only at hrun
        split at hrun <;> cases hrun
  · rw [heq] at hrun
    cases answer <;> cases hrun
    exact .unknown

/-- A call that succeeds has carried out what was pending, each migration in its own transaction. -/
theorem apply_ok (h : migrator.backend.Reliable effect view) (hdry : migrator.dryRun = false)
    (htransactional : migrator.backend.dialect.capabilities.transactional = true)
    (horder : Migration.InOrder app migrations ordered) (hclosed : (view τ.database).saved = none)
    {names : List String} (hok : migrator.apply app migrations target τ = .ok names τ') :
    View.Advanced effect
      (Migration.HasScript migrator.backend.dialect migrator.backend.now app false ordered)
      (Ledger.pending (view τ.database).ledger app target ordered) (view τ.database)
        (view τ'.database) ∧
    names = (Ledger.pending (view τ.database).ledger app target ordered).map (·.name) := by
  cases applying h hdry horder (show _ = Backend.answered (.ok names) τ' from hok) with
  | worked hsame hall hdatabase =>
      rw [← hsame] at hclosed ⊢
      obtain ⟨hadvanced, hnames⟩ := applyAll_ok h hdry htransactional
        (.of_inOrder horder (List.takeWhile_append_dropWhile).symm) hclosed hall
      rw [pending_eq horder, ← hsame] at hadvanced hnames
      rw [hdatabase]
      exact ⟨hadvanced, hnames⟩

/-- Where a call of applying succeeds, the pending migrations have been carried out, in transactions
or without. -/
theorem apply_carries (h : migrator.backend.Reliable effect view) (hdry : migrator.dryRun = false)
    (horder : Migration.InOrder app migrations ordered) (hclosed : (view τ.database).saved = none)
    {names : List String} (hok : migrator.apply app migrations target τ = .ok names τ') :
    Migration.Carried effect
      (Migration.HasScript migrator.backend.dialect migrator.backend.now app false ordered)
      (Ledger.pending (view τ.database).ledger app target ordered) (view τ.database).contents
      (view τ'.database).contents := by
  cases applying h hdry horder (show _ = Backend.answered (.ok names) τ' from hok) with
  | worked hsame hall hdatabase =>
      rw [← hsame] at hclosed ⊢
      have hcarried := applyAll_carries h hdry
        (.of_inOrder horder (List.takeWhile_append_dropWhile).symm) hclosed hall
      rwa [pending_eq horder, ← hsame, ← hdatabase] at hcarried

theorem apply_error (h : migrator.backend.Reliable effect view) (hdry : migrator.dryRun = false)
    (htransactional : migrator.backend.dialect.capabilities.transactional = true)
    (horder : Migration.InOrder app migrations ordered) (hclosed : (view τ.database).saved = none)
    (herror : migrator.apply app migrations target τ = .error e τ') :
    ∃ applied left, Ledger.pending (view τ.database).ledger app target ordered = applied ++ left ∧
      View.Advanced effect
        (Migration.HasScript migrator.backend.dialect migrator.backend.now app false
          ordered) applied
        (view τ.database) (view τ'.database) ∧
      ∀ name, e.migration? = some name → ∀ migration ∈ applied, migration.name < name := by
  cases applying h hdry horder (show _ = Backend.answered (.error e) τ' from herror) with
  | unknown => exact ⟨[], _, rfl, View.Advanced.nil hclosed, fun _ _ => nofun⟩
  | unread hentries =>
      rw [(looks_entries h.unmoved).error _ _ _ hentries]
      exact ⟨[], _, rfl, View.Advanced.nil hclosed, fun _ _ => nofun⟩
  | worked hsame hall hdatabase =>
      rw [← hsame] at hclosed ⊢
      obtain ⟨applied, left, hpending, hadvanced, hblames⟩ := applyAll_error h hdry htransactional
        (.of_inOrder horder (List.takeWhile_append_dropWhile).symm) hclosed hall
      rw [pending_eq horder, ← hsame] at hpending
      rw [hdatabase]
      exact ⟨applied, left, hpending, hadvanced, fun name hname => (hblames name hname).2⟩

end Apply

/-! ### Rolling back -/

section Rollback

variable {target : String} {ledger : List LedgerEntry} {undo : List (Migration × Migration.Steps)}

/-- The list that rolling back works through. -/
theorem recorded_eq (ledger : List LedgerEntry) :
    (ordered.filter fun migration => (ledger.filter (·.app == app)).any (·.name == migration.name))
      = Ledger.recorded ledger app ordered := by
  simp only [Ledger.any_name_eq]
  rfl

/-- The recorded migrations are met in order by the replay of the recorded ones. -/
theorem Ahead.recorded (h : Migration.InOrder app migrations ordered) :
    Ahead app (Ledger.recorded ledger app ordered) { app }
      (Ledger.recorded ledger app ordered) where
  place := ⟨[], [], (List.append_nil _).symm, rfl⟩
  ascending := h.ascending.filter _
  app_eq _ hmem := h.app_of_mem (List.mem_of_mem_filter hmem)

/-- The list to undo has the recorded migrations above the target, last ones first. -/
theorem above_of_undoList
    (hok : undoList (numberOfTarget target) { app }
      (Ledger.recorded ledger app ordered) = .ok undo) :
    undo.reverse.map (·.1) = Ledger.above ledger app target ordered := by
  rw [List.map_reverse, map_undoList hok]
  rfl

/-- The migrations in the list have names that begin with a number. -/
theorem numbered_of_undoList (horder : Migration.InOrder app migrations ordered)
    (hok : undoList (numberOfTarget target) { app } (Ledger.recorded ledger app ordered) = .ok undo)
    {entry : Migration × Migration.Steps} (hentry : entry ∈ undo) : entry.1.Numbered := by
  have hmem : entry.1 ∈ undo.map (·.1) := List.mem_map_of_mem hentry
  rw [map_undoList hok] at hmem
  exact horder.numbered_of_mem (List.mem_of_mem_filter (List.mem_of_mem_filter hmem))

/-- What is needed of the list to undo it: the rows of its migrations can be removed, and the
statements for its steps are scripts. -/
theorem ready_of_undoList (h : migrator.backend.Reliable effect view)
    (horder : Migration.InOrder app migrations ordered)
    (hok : undoList (numberOfTarget target) { app }
      (Ledger.recorded ledger app ordered) = .ok undo) :
    (∀ entry ∈ undo.reverse, migrator.backend.Strikes view entry.1.app entry.1.name) ∧
      ∀ entry ∈ undo.reverse, ∀ statements,
        Migration.recording migrator.backend.dialect migrator.backend.now
          (fun backend => Migration.backwardAll backend entry.2) = .ok statements →
        entry.1.HasScript migrator.backend.dialect migrator.backend.now app true
          (Ledger.recorded ledger app ordered) statements := by
  constructor
  · intro entry hentry
    exact h.strike _ _ (numbered_of_undoList horder hok (List.mem_reverse.mp hentry))
  · intro entry hentry statements hrecording
    exact hasScript_of_undoList (Ahead.recorded horder) hok (List.mem_reverse.mp hentry) hrecording

/-- What rolling back does once it is known that all rows are those of its migrations. -/
def rollbackWithin (migrator : Migrator σ) (app target : String) (recorded : List Migration) :
    Run σ (List String) := do
  let undo ← Run.ofExcept (undoList (numberOfTarget target) { app } recorded)
  if undo.isEmpty then
    Run.emit (.message .info "Nothing to roll back"
      [("app", app), ("target", numberOfTarget target)])
    return []
  migrator.revertAll undo.reverse
  return undo.reverse.map (·.1.name)

/-- Once the migrations are sorted, rolling back reads the ledger, refuses names that it does not
know and goes on within the recorded migrations. -/
theorem rollback_eq_of_sorted (hsorted : sorted app migrations = .ok ordered)
    (migrator : Migrator σ) :
    migrator.rollback app migrations target = (migrator.entries app >>= fun records =>
      match records.find? fun record => !ordered.any (·.name == record.name) with
      | some unknown => throw (.notFound app unknown.name)
      | none => migrator.rollbackWithin app target
          (ordered.filter fun migration => records.any (·.name == migration.name))) := by
  unfold rollback
  rw [hsorted, Run.ofExcept_ok_bind]
  refine congrArg _ (funext fun records => ?_)
  cases records.find? fun record => !ordered.any (·.name == record.name) <;> rfl

/-- How a call of rolling back goes. If the ledger can be read, all rows in it are those of its
migrations and the recorded ones can be replayed, it works through the list of those above the
target. -/
inductive RollingBack (view : σ → View κ) (migrator : Migrator σ) (app target : String)
    (ordered : List Migration) (τ : Transcript σ) :
    Except MigrationError (List String) → Transcript σ → Prop where
  | unread {e : MigrationError} {τ' : Transcript σ} :
      migrator.entries app τ = .error e τ' →
      RollingBack view migrator app target ordered τ (.error e) τ'
  | unknown {name : String} {τ' : Transcript σ} :
      view τ'.database = view τ.database →
      RollingBack view migrator app target ordered τ (.error (.notFound app name)) τ'
  | stuck {e : MigrationError} {τ' : Transcript σ} :
      view τ'.database = view τ.database →
      undoList (numberOfTarget target) { app }
        (Ledger.recorded (view τ.database).ledger app ordered)
        = .error e →
      RollingBack view migrator app target ordered τ (.error e) τ'
  | idle {τ' : Transcript σ} :
      view τ'.database = view τ.database →
      undoList (numberOfTarget target) { app }
        (Ledger.recorded (view τ.database).ledger app ordered)
        = .ok [] →
      RollingBack view migrator app target ordered τ (.ok []) τ'
  | failed {undo : List (Migration × Migration.Steps)} {e : MigrationError} {τ₁ τ' : Transcript σ} :
      view τ₁.database = view τ.database →
      undoList (numberOfTarget target) { app }
        (Ledger.recorded (view τ.database).ledger app ordered)
        = .ok undo →
      migrator.revertAll undo.reverse τ₁ = .error e τ' →
      RollingBack view migrator app target ordered τ (.error e) τ'
  | worked {undo : List (Migration × Migration.Steps)} {τ₁ τ' : Transcript σ} :
      view τ₁.database = view τ.database →
      undoList (numberOfTarget target) { app }
        (Ledger.recorded (view τ.database).ledger app ordered)
        = .ok undo →
      migrator.revertAll undo.reverse τ₁ = .ok () τ' →
      RollingBack view migrator app target ordered τ (.ok (undo.reverse.map (·.1.name))) τ'

/-- However a call of rolling back ends, it ends as one of the cases of `RollingBack`. -/
theorem rollingBack (h : migrator.backend.Reliable effect view) (hdry : migrator.dryRun = false)
    (horder : Migration.InOrder app migrations ordered)
    {answer : Except MigrationError (List String)}
    (hrun : migrator.rollback app migrations target τ = Backend.answered answer τ') :
    RollingBack view migrator app target ordered τ answer τ' := by
  rw [rollback_eq_of_sorted horder.sorted_eq] at hrun
  rcases bind_eq_answered.mp hrun with ⟨records, τ₁, hentries, hrun⟩ | ⟨e, rfl, hentries⟩
  swap
  · exact .unread hentries
  obtain ⟨rfl, hsame⟩ := entries_ok h hdry hentries
  generalize List.find? _ _ = unknown? at hrun
  cases unknown? with
  | some unknown =>
      cases answer <;> cases hrun
      exact .unknown hsame
  | none =>
      rcases bind_eq_answered.mp hrun with ⟨undo, τ₂, hanswer, hrun⟩ | ⟨e, rfl, hanswer⟩
      swap
      · obtain ⟨hundo, rfl⟩ := Run.ofExcept_eq_error.mp hanswer
        rw [recorded_eq] at hundo
        exact .stuck hsame hundo
      obtain ⟨hundo, rfl⟩ := Run.ofExcept_eq_ok.mp hanswer
      rw [recorded_eq] at hundo
      split at hrun
      · next hempty =>
          obtain rfl := List.isEmpty_iff.mp hempty
          cases answer <;> cases hrun
          exact .idle hsame hundo
      · rcases bind_eq_answered.mp hrun with ⟨⟨⟩, τ₃, hall, hrun⟩ | ⟨e, rfl, hall⟩
        · cases answer <;> cases hrun
          exact .worked hsame hundo hall
        · exact .failed hsame hundo hall

/-- A call that succeeds has undone the recorded migrations above the target. -/
theorem rollback_ok (h : migrator.backend.Reliable effect view) (hdry : migrator.dryRun = false)
    (htransactional : migrator.backend.dialect.capabilities.transactional = true)
    (horder : Migration.InOrder app migrations ordered) (hclosed : (view τ.database).saved = none)
    {names : List String} (hok : migrator.rollback app migrations target τ = .ok names τ') :
    View.Receded effect
      (Migration.HasScript migrator.backend.dialect migrator.backend.now app true
        (Ledger.recorded (view τ.database).ledger app ordered))
      (Ledger.above (view τ.database).ledger app target ordered) (view τ.database)
        (view τ'.database) ∧
    names = (Ledger.above (view τ.database).ledger app target ordered).map (·.name) := by
  cases rollingBack h hdry horder (show _ = Backend.answered (.ok names) τ' from hok) with
  | idle hsame hundo =>
      rw [← above_of_undoList hundo, hsame]
      exact ⟨View.Receded.nil hclosed, rfl⟩
  | worked hsame hundo hall =>
      have habove := above_of_undoList hundo
      obtain ⟨hstrikes, hscripts⟩ := ready_of_undoList h horder hundo
      rw [← hsame] at hclosed hscripts habove ⊢
      rw [← habove, List.map_map]
      exact ⟨revertAll_ok h hdry htransactional hstrikes hscripts hclosed hall, rfl⟩

/-- Migrations are undone from the last one on, so the ones undone come after the one that
failed. -/
theorem rollback_error (h : migrator.backend.Reliable effect view) (hdry : migrator.dryRun = false)
    (htransactional : migrator.backend.dialect.capabilities.transactional = true)
    (horder : Migration.InOrder app migrations ordered) (hclosed : (view τ.database).saved = none)
    (herror : migrator.rollback app migrations target τ = .error e τ') :
    ∃ undone left, Ledger.above (view τ.database).ledger app target ordered = undone ++ left ∧
      View.Receded effect
        (Migration.HasScript migrator.backend.dialect migrator.backend.now app true
          (Ledger.recorded (view τ.database).ledger app ordered)) undone
        (view τ.database) (view τ'.database) ∧
      ∀ name, e.migration? = some name → ∀ migration ∈ undone, name < migration.name := by
  -- a failure before the first migration is undone leaves everything as it is
  have hnone : view τ'.database = view τ.database →
      ∃ undone left, Ledger.above (view τ.database).ledger app target ordered = undone ++ left ∧
        View.Receded effect
          (Migration.HasScript migrator.backend.dialect migrator.backend.now app true
            (Ledger.recorded (view τ.database).ledger app ordered)) undone
          (view τ.database) (view τ'.database) ∧
        ∀ name, e.migration? = some name → ∀ migration ∈ undone, name < migration.name := by
    intro hsame
    rw [hsame]
    exact ⟨[], _, rfl, View.Receded.nil hclosed, fun _ _ => nofun⟩
  cases rollingBack h hdry horder (show _ = Backend.answered (.error e) τ' from herror) with
  | unread hentries => exact hnone ((looks_entries h.unmoved).error _ _ _ hentries)
  | unknown hsame => exact hnone hsame
  | stuck hsame _ => exact hnone hsame
  | failed hsame hundo hall =>
      obtain ⟨hstrikes, hscripts⟩ := ready_of_undoList h horder hundo
      obtain ⟨undone, failed, left, hsplit, hreceded, hblames⟩ :=
        revertAll_error h hdry htransactional hstrikes hscripts (hsame ▸ hclosed) hall
      rw [above_of_undoList hundo] at hsplit
      rw [hsame] at hreceded
      refine ⟨undone, failed :: left, hsplit, hreceded, fun name hname migration hmem => ?_⟩
      rw [hblames] at hname
      cases hname
      -- the list goes down, and the one that failed stands behind those undone
      have hdescending : (undone ++ failed :: left).Pairwise fun a b => b.name < a.name := by
        rw [← hsplit]
        exact List.pairwise_reverse.mpr ((horder.ascending.filter _).filter _)
      exact (List.pairwise_append.mp hdescending).2.2 migration hmem failed List.mem_cons_self

end Rollback

/-! ### Dry runs -/

section DryRun

variable {state : AppSchema} {migration : Migration}

theorem looks_emitStatements (work : Backend Journal → Work Journal Unit) :
    Run.Looks view (migrator.emitStatements work) :=
  (Run.Looks.ofExcept _).bind fun _ => (Run.Looks.ofExcept _).bind fun _ =>
    Run.Looks.forM fun _ => Run.Looks.emit _

/-- A dry run of a migration leaves what is in view as it is. -/
theorem looks_perform (hdry : migrator.dryRun = true) :
    Run.Looks view (migrator.perform state migration) := by
  unfold perform
  refine (Run.Looks.emit _).bind fun _ => (Run.Looks.ofExcept _).bind fun steps => ?_
  dsimp only
  rw [if_pos hdry]
  refine (looks_emitStatements _).bind fun _ => (Run.Looks.ofExcept _).bind fun next => ?_
  exact (Run.Looks.emit _).bind fun _ => Run.Looks.pure next

theorem looks_applyAll (h : migrator.backend.Reliable effect view) (hdry : migrator.dryRun = true)
    {recorded done : List String} (pending : List Migration) :
    Run.Looks view (migrator.applyAll recorded state done pending) := by
  induction pending generalizing state done with
  | nil => exact Run.Looks.pure done
  | cons migration rest ih =>
      unfold applyAll
      split
      · exact (Run.Looks.emit _).bind fun _ => (Run.Looks.ofExcept _).bind fun _ => ih
      · refine (looks_requireApplied h.unmoved done).bind fun _ => ?_
        exact (looks_perform hdry).inContext.bind fun _ => ih

theorem looks_revert (hdry : migrator.dryRun = true) {steps : Migration.Steps} :
    Run.Looks view (migrator.revert migration steps) := by
  unfold revert
  rw [if_pos hdry]
  exact (Run.Looks.emit _).bind fun _ => (looks_emitStatements _).bind fun _ => Run.Looks.emit _

/-- Undoing them in a dry run does so, too. -/
theorem looks_revertAll (hdry : migrator.dryRun = true)
    (undo : List (Migration × Migration.Steps)) :
    Run.Looks view (migrator.revertAll undo) := by
  induction undo with
  | nil => exact Run.Looks.pure ()
  | cons entry rest ih => exact (looks_revert hdry).inContext.bind fun _ => ih

/-- A dry run of applying changes nothing, however it ends. -/
theorem looks_apply (h : migrator.backend.Reliable effect view) (hdry : migrator.dryRun = true)
    (target : Option String) : Run.Looks view (migrator.apply app migrations target) := by
  have hrest (sorted : List Migration) :
    Run.Looks view (migrator.applyWithin app target sorted) := by
    refine (looks_entries h.unmoved).bind fun records => ?_
    refine (looks_applyAll h hdry _).bind fun applied => ?_
    split
    · exact (Run.Looks.emit _).bind fun _ => Run.Looks.pure applied
    · exact Run.Looks.pure applied
  refine (Run.Looks.ofExcept _).bind fun sorted => ?_
  have hsorted := hrest sorted
  unfold applyWithin at hsorted
  generalize target.map numberOfTarget = number? at hsorted ⊢
  cases number? with
  | none => exact hsorted
  | some number =>
      dsimp only
      split
      · exact (Run.Looks.throw _).bind fun _ => hsorted
      · exact hsorted

/-- A dry run of rolling back changes nothing, however it ends. -/
theorem looks_rollback (h : migrator.backend.Reliable effect view) (hdry : migrator.dryRun = true)
    (target : String) : Run.Looks view (migrator.rollback app migrations target) := by
  have hrest (recorded : List Migration) :
      Run.Looks view (migrator.rollbackWithin app target recorded) := by
    refine (Run.Looks.ofExcept _).bind fun undo => ?_
    split
    · exact (Run.Looks.emit _).bind fun _ => Run.Looks.pure []
    · exact (looks_revertAll hdry _).bind fun _ => Run.Looks.pure _
  refine (Run.Looks.ofExcept _).bind fun sorted => (looks_entries h.unmoved).bind fun records => ?_
  dsimp only
  split
  · exact (Run.Looks.throw _).bind fun _ => hrest _
  · exact hrest _

end DryRun

end Migrator

end SchemaHistory
