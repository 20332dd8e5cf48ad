import SchemaHistory.Proofs.MigratorCalls

/-!
# What a migration requires

Before a migration is applied, all that it depends on must be. Where each pending migration depends
only on what is recorded and on pending ones before it (`Ledger.Supplied`), none of them is refused
for a missing dependency, whatever else may go wrong (`Migrator.apply_supplied`).

`Supplied.head` and `Supplied.tail` follow a run: the migration at hand finds its dependencies
recorded, and once it is applied the rest is supplied by the ledger as it has become.
-/

namespace SchemaHistory

/-- The error is that a migration comes after one that is not applied. -/
def MigrationError.IsMissing (e : MigrationError) : Prop :=
  ∃ app name neededApp neededName, e = .missingDependency app name neededApp neededName

namespace Ledger

variable {ledger : List LedgerEntry} {migration : Migration}

/-- What each migration depends on is recorded, or is applied before it. -/
def Supplied (ledger : List LedgerEntry) (pending : List Migration) : Prop :=
  ∀ migration ∈ pending, ∀ dependency ∈ migration.dependencies,
    ledger.any (·.isFor dependency.1 dependency.2) = true ∨
      ∃ earlier ∈ pending, (earlier.app, earlier.name) = dependency ∧ earlier.name < migration.name

/-- The first migration needs nothing but what is recorded. -/
theorem Supplied.head {rest : List Migration} (h : Supplied ledger (migration :: rest))
    (hfirst : ∀ other ∈ rest, migration.name < other.name) :
    ∀ dependency ∈ migration.dependencies,
      ledger.any (·.isFor dependency.1 dependency.2) = true := by
  intro dependency hdependency
  rcases h migration List.mem_cons_self dependency hdependency with
    hrecorded | ⟨earlier, hmem, -, hname⟩
  · exact hrecorded
  · rcases List.mem_cons.mp hmem with rfl | hmem
    · exact absurd hname (lt_irrefl _)
    · exact absurd hname (lt_asymm (hfirst earlier hmem))

/-- Once the first migration is recorded, the others are supplied without it. -/
theorem Supplied.tail {rest : List Migration} {entry : LedgerEntry}
    (h : Supplied ledger (migration :: rest))
    (hentry : Records migration.app migration.name migration.number entry) :
    Supplied (ledger ++ [entry]) rest := by
  obtain ⟨happ, hname, -⟩ := hentry
  intro other hother dependency hdependency
  rw [List.any_append, Bool.or_eq_true]
  rcases h other (List.mem_cons_of_mem _ hother) dependency hdependency with
    hrecorded | ⟨earlier, hmem, heq, hlt⟩
  · exact Or.inl (Or.inl hrecorded)
  · rcases List.mem_cons.mp hmem with rfl | hmem
    · refine Or.inl (Or.inr ?_)
      rw [← heq]
      simp [LedgerEntry.isFor, happ, hname]
    · exact Or.inr ⟨earlier, hmem, heq, hlt⟩

end Ledger

/-- A loop of rounds that change nothing fails at one of its rounds, with everything as it was. -/
theorem Run.Looks.exists_of_forM_eq_error {σ β κ : Type} {view : σ → View κ} {f : β → Run σ Unit}
    {xs : List β} {τ τ' : Transcript σ} {e : MigrationError} (hlooks : ∀ x, Run.Looks view (f x))
    (h : xs.forM f τ = .error e τ') :
    ∃ x ∈ xs, ∃ τ₁, view τ₁.database = view τ.database ∧ f x τ₁ = .error e τ' := by
  induction xs generalizing τ with
  | nil => exact absurd h pure_ne_error
  | cons x xs ih =>
      rcases bind_eq_error.mp h with hx | ⟨⟨⟩, τ₁, hx, hxs⟩
      · exact ⟨x, List.mem_cons_self, τ, rfl, hx⟩
      · obtain ⟨y, hy, τ₂, hview, hfails⟩ := ih hxs
        rw [(hlooks x).ok _ _ _ hx] at hview
        exact ⟨y, List.mem_cons_of_mem _ hy, τ₂, hview, hfails⟩

namespace Migrator

/-! ### Asking the ledger -/

variable {σ κ : Type} {migrator : Migrator σ} {effect : Statement → κ → Option κ}
  {view : σ → View κ} {τ τ' : Transcript σ} {e : MigrationError} {state state' : AppSchema}
  {migration : Migration} {app name : String} {migrations ordered rest : List Migration}
  {recorded done : List String} {target : Option String}

/-- An answer about a migration is what the ledger says. -/
theorem hasApplied_ok (h : migrator.backend.Reliable effect view) (hdry : migrator.dryRun = false)
    {found : Bool} (hok : migrator.hasApplied app name τ = .ok found τ') :
    found = (view τ.database).ledger.any (·.isFor app name) := by
  obtain ⟨records, τ₁, hentries, hok⟩ := bind_eq_ok.mp hok
  obtain ⟨rfl, -⟩ := pure_eq_ok.mp hok
  rw [(entries_ok h hdry hentries).1, Ledger.any_name_eq]

theorem not_isMissing_of_entries (hdry : migrator.dryRun = false)
    (herror : migrator.entries app τ = .error e τ') : ¬e.IsMissing := by
  rintro ⟨_, _, _, _, rfl⟩
  exact nomatch entries_error hdry herror

/-- With all dependencies recorded the check does not find one missing. -/
theorem requireApplied_of_recorded (h : migrator.backend.Reliable effect view)
    (hdry : migrator.dryRun = false)
    (hrecorded : ∀ dependency ∈ migration.dependencies,
      (view τ.database).ledger.any (·.isFor dependency.1 dependency.2) = true)
    (herror : migrator.requireApplied migration done τ = .error e τ') : ¬e.IsMissing := by
  obtain ⟨⟨app, name⟩, hmem, τ₁, hview, herror⟩ :=
    Run.Looks.exists_of_forM_eq_error (looks_requirement h.unmoved done) herror
  dsimp only at herror
  split at herror
  · exact absurd herror pure_ne_error
  · rcases bind_eq_error.mp herror with herror | ⟨found, τ₂, hfound, herror⟩
    · rcases bind_eq_error.mp herror with herror | ⟨records, τ₂, -, herror⟩
      · exact not_isMissing_of_entries hdry herror
      · exact absurd herror pure_ne_error
    · obtain rfl := hasApplied_ok h hdry hfound
      rw [hview, hrecorded _ hmem] at herror
      exact absurd herror pure_ne_error

theorem not_isMissing_of_next (h : state.next migration = .error e) : ¬e.IsMissing := by
  rintro ⟨_, _, _, _, rfl⟩
  rcases next_eq_error h with ⟨_, _, h⟩ | ⟨_, h⟩
  · cases h
  · cases h

/-! ### Nothing is missing -/

/-- By induction on the list, no dependency is missing if each is recorded or earlier in the
list. -/
theorem applyAll_supplied (h : migrator.backend.Reliable effect view)
    (hdry : migrator.dryRun = false)
    (htransactional : migrator.backend.dialect.capabilities.transactional = true)
    (hahead : Ahead app ordered state rest) (hclosed : (view τ.database).saved = none)
    (hsupplied : Ledger.Supplied (view τ.database).ledger
      (rest.filter fun migration => !recorded.contains migration.name))
    (herror : migrator.applyAll recorded state done rest τ = .error e τ') : ¬e.IsMissing := by
  induction rest generalizing state done τ with
  | nil => exact absurd herror pure_ne_error
  | cons migration rest ih =>
      cases appliesFirst_of_error herror with
      | skipped hrecorded hnext hsame hrest =>
          rw [List.filter_cons_of_neg (by rw [hrecorded]; simp)] at hsupplied
          rw [← hsame] at hclosed hsupplied
          exact ih (hahead.tail hnext) hclosed hsupplied hrest
      | refused _ hnext _ => exact not_isMissing_of_next hnext
      | missing hrecorded hrequired =>
          rw [List.filter_cons_of_pos (by simpa using hrecorded)] at hsupplied
          have hfirst : ∀ other ∈ rest.filter fun migration => !recorded.contains migration.name,
              migration.name < other.name :=
            fun other hother => hahead.name_lt (List.mem_of_mem_filter hother)
          exact requireApplied_of_recorded h hdry (hsupplied.head hfirst) hrequired
      | failed _ _ _ =>
          rintro ⟨_, _, _, _, heq⟩
          cases heq
      | applied hrecorded hrequired hperform hrest =>
          rw [List.filter_cons_of_pos (by simpa using hrecorded)] at hsupplied
          rw [← (looks_requireApplied h.unmoved _).ok _ _ _ hrequired] at hclosed hsupplied
          obtain ⟨hnext, statements, contents, entry, -, -, hentry, hview⟩ :=
            perform_ok h hdry htransactional hclosed hperform
          -- the row of the migration is there now
          refine ih (hahead.tail hnext) ?_ ?_ hrest
          · rw [hview]
          · rw [hview]
            exact hsupplied.tail hentry

theorem apply_supplied (h : migrator.backend.Reliable effect view)
    (hdry : migrator.dryRun = false)
    (htransactional : migrator.backend.dialect.capabilities.transactional = true)
    (horder : Migration.InOrder app migrations ordered) (hclosed : (view τ.database).saved = none)
    (hsupplied : Ledger.Supplied (view τ.database).ledger
      (Ledger.pending (view τ.database).ledger app target ordered))
    (herror : migrator.apply app migrations target τ = .error e τ') : ¬e.IsMissing := by
  cases applying h hdry horder (show _ = Backend.answered (.error e) τ' from herror) with
  | unknown => exact nofun
  | unread hentries => exact not_isMissing_of_entries hdry hentries
  | worked hsame hall _ =>
      rw [← pending_eq horder, ← hsame] at hsupplied
      rw [← hsame] at hclosed hall
      exact applyAll_supplied h hdry htransactional
        (.of_inOrder horder (List.takeWhile_append_dropWhile).symm) hclosed hsupplied hall

end Migrator

end SchemaHistory
