import SchemaHistory.Proofs.FaultyStore
import SchemaHistory.Proofs.MigratorCalls
import SchemaHistory.Proofs.RoundTrip

/-!
# All or nothing

What a call of the migrator leaves behind, whatever is refused while it is at work, is what some of
the first migrations that it is about make of the database, each from beginning to end, with their
rows in the ledger and one transaction for each. The example is a second migration that is refused
half-way.
-/

namespace SchemaHistory.Migrator

variable {σ κ : Type}

/-- Let a database be reliable, but refuse whatever it likes, and have no transaction open. Applying
the migrations of an app carries out all that are pending, keeps each, adds their rows to the ledger
and names them; or it fails after some of the first of them, and all of those come before the
migration that failed. Rolling back does the same to the recorded migrations above the target, from
the last one on, and removes their rows. Afterwards no transaction is open. -/
theorem all_or_nothing {backend : Backend σ} {effect : Statement → κ → Option κ} {view : σ → View κ}
    (h : backend.Reliable effect view)
    (htransactional : backend.dialect.capabilities.transactional = true)
    {app : String} {migrations ordered : List Migration}
    (horder : Migration.InOrder app migrations ordered) {τ : Transcript σ}
    (hclosed : (view τ.database).saved = none) :
    (∀ target : Option String,
      let pending := Ledger.pending (view τ.database).ledger app target ordered
      let hasScript := Migration.HasScript backend.dialect backend.now app false ordered
      match Migrator.apply { backend } app migrations target τ with
      | .ok names τ' =>
        View.Advanced effect hasScript pending (view τ.database) (view τ'.database) ∧
          names = pending.map (·.name)
      | .error e τ' => ∃ applied left, pending = applied ++ left ∧
        View.Advanced effect hasScript applied (view τ.database) (view τ'.database) ∧
          ∀ name, e.migration? = some name → ∀ migration ∈ applied, migration.name < name) ∧
    (∀ target : String,
      let above := Ledger.above (view τ.database).ledger app target ordered
      let hasScript := Migration.HasScript backend.dialect backend.now app true
        (Ledger.recorded (view τ.database).ledger app ordered)
      match Migrator.rollback { backend } app migrations target τ with
      | .ok names τ' =>
        View.Receded effect hasScript above (view τ.database) (view τ'.database) ∧
          names = above.map (·.name)
      | .error e τ' => ∃ undone left, above = undone ++ left ∧
        View.Receded effect hasScript undone (view τ.database) (view τ'.database) ∧
          ∀ name, e.migration? = some name → ∀ migration ∈ undone, name < migration.name) := by
  have hreliable : (Migrator.mk backend false).backend.Reliable effect view := h
  have hdry : (Migrator.mk backend false).dryRun = false := rfl
  constructor
  · intro target pending hasScript
    cases hrun : Migrator.apply { backend } app migrations target τ with
    | ok names τ' =>
        have hok := apply_ok hreliable hdry htransactional horder hclosed hrun
        exact hok
    | error e τ' =>
        have herror := apply_error hreliable hdry htransactional horder hclosed hrun
        exact herror
  · intro target above hasScript
    cases hrun : Migrator.rollback { backend } app migrations target τ with
    | ok names τ' =>
        have hok := rollback_ok hreliable hdry htransactional horder hclosed hrun
        exact hok
    | error e τ' =>
        have herror := rollback_error hreliable hdry htransactional horder hclosed hrun
        exact herror

/-! ### A migration that is refused half-way -/

def rankMigration : Migration where
  app := "notes"
  name := "0002_rank"
  operations := [Operation.rankAdded]

def writeDown (statement : Statement) (written : List Statement) : Option (List Statement) :=
  some (written ++ [statement])

/-- A database that writes down what it is asked to do. It refuses to have a shadow table. -/
def recorder : Backend (Store (List Statement)) :=
  Store.backend .sqlite Operation.noteMoment writeDown fun _ statement? => match statement? with
    | some statement => isPartOf "__new".toList (statement.chars .sqlite)
    | none => false

def blank : Transcript (Store (List Statement)) := ⟨⟨⟨[], [], none, 0⟩, 0⟩, #[]⟩

theorem inOrder_notes : Migration.InOrder "notes" [rankMigration, Operation.noteMigration]
    [Operation.noteMigration, rankMigration] where
  perm := .swap _ _ _
  ascending := by decide
  app_eq := by decide
  numbered := by simp [Migration.Numbered]; decide

/-- The rank cannot be added, so only the first migration is there in the end. -/
theorem rank_refused : ∃ e τ,
    Migrator.apply { backend := recorder } "notes"
      [rankMigration, Operation.noteMigration] none blank
      = .error e τ ∧
    e.migration? = some "0002_rank" ∧
    View.Advanced writeDown
      (Migration.HasScript .sqlite Operation.noteMoment "notes" false
        [Operation.noteMigration, rankMigration])
      [Operation.noteMigration] blank.database.view τ.database.view := by
  have hreliable : recorder.Reliable writeDown Store.view := Store.reliable _ _ _ _
  have hclosed : (Store.view blank.database).saved = none := rfl
  have happly := (all_or_nothing hreliable rfl inOrder_notes hclosed).1 none
  have hrun : ∃ e τ,
      Migrator.apply { backend := recorder } "notes"
        [rankMigration, Operation.noteMigration] none blank
        = .error e τ ∧ e.migration? = some "0002_rank" ∧ τ.database.view.commits = 1 := by
    unfold Migrator.apply
    rw [inOrder_notes.sorted_eq]
    exact ⟨_, _, rfl, rfl, rfl⟩
  obtain ⟨e, τ, hrun, hblames, hcommits⟩ := hrun
  refine ⟨e, τ, hrun, hblames, ?_⟩
  rw [hrun] at happly
  obtain ⟨applied, left, hpending, hadvanced, -⟩ := happly
  -- one transaction has been kept, so one migration has been applied
  have hlength : applied.length = 1 := by
    have h := hadvanced.commits
    rw [hcommits] at h
    exact (Nat.zero_add _).symm.trans h.symm
  have hfirst : applied = ([Operation.noteMigration, rankMigration] : List Migration).take 1 := by
    rw [← hlength]
    exact (List.take_left' rfl).symm.trans (congrArg _ hpending.symm)
  rw [hfirst] at hadvanced
  exact hadvanced

end SchemaHistory.Migrator
