import SchemaHistory.Proofs.ComposedCalls

/-!
# Where a target cuts

Migrations are sorted by their whole names, and a target is compared with their numbers alone. Both
agree: a name that is not above another has a number that is not above the other's, in digits of any
script (`MigrationName.number_le`). So to stop at the first number above a target leaves none out
that is not above it, and to undo all above it leaves the ones before them alone
(`Migrator.target_drops_nothing`).
-/

namespace SchemaHistory

namespace MigrationName

variable {name other number number' label label' : String}

theorem split?_of_decode {parts : String × String} (h : decode name = .ok parts) :
    split? name = some parts := by
  unfold decode at h
  split at h
  · next hsplit =>
      cases h
      exact hsplit
  · cases h

/-- A name that is not above another has a number that is not above the other's. -/
theorem number_le (hname : decode name = .ok (number, label))
    (hother : decode other = .ok (number', label')) (h : name ≤ other) : number ≤ number' := by
  have hsplit := split?_of_decode hname
  have hsplit' := split?_of_decode hother
  have hle := Migration.number_le_of_name_le (a := { app := "", name }) (b :=
    { app := "", name := other })
    (Option.isSome_of_eq_some hsplit) (Option.isSome_of_eq_some hsplit') h
  simpa only [Migration.number, hsplit, hsplit'] using hle

end MigrationName

namespace Migrator

variable {σ : Type} {migrator : Migrator σ} {app target : String}
  {migrations ordered : List Migration} {τ τ' : Transcript σ} {names : List String}

/-! ### Sorting -/

/-- Sorting gives all migrations in the order of their names, if all are of the app. -/
theorem exists_sorted (happs : ∀ migration ∈ migrations, migration.app = app) :
    ∃ ordered, sorted app migrations = .ok ordered ∧ ordered.Perm migrations ∧
      ordered.Pairwise (·.name ≤ ·.name) :=
  ⟨_, sorted_of_apps happs, List.mergeSort_perm _ _, Migration.pairwise_sorted migrations⟩

/-- Migrations of another app are refused. -/
theorem sorted_of_foreign {foreign : Migration} (hmem : foreign ∈ migrations)
    (hforeign : foreign.app ≠ app) : ∃ e, sorted app migrations = .error e := by
  unfold sorted
  cases hfind : migrations.find? (·.app ≠ app) with
  | none => exact absurd hforeign (by simpa using List.find?_eq_none.mp hfind foreign hmem)
  | some first => exact ⟨_, rfl⟩

/-! ### Applying -/

/-- The migrations before the first one above a target are all that are not above it. -/
theorem takeWhile_isWithin_of_sorted (hnumbered : ∀ migration ∈ ordered, migration.Numbered)
    (hsorted : ordered.Pairwise (·.name ≤ ·.name)) (number : String) :
    ordered.takeWhile (isWithin (some number)) = ordered.filter (·.number ≤ number) := by
  rw [takeWhile_eq_filter (pairwise_isWithin hnumbered hsorted _)]
  refine List.filter_congr fun migration _ => ?_
  simp only [isWithin, ← decide_not, not_lt]

/-- Applying cuts the sorted migrations after the number of the target, if there is one. -/
theorem apply_of_sorted (hsorted : sorted app migrations = .ok ordered) :
    migrator.apply app migrations (some target)
      = if ordered.any (·.number == numberOfTarget target) then
          migrator.applyListed app (ordered.takeWhile (isWithin (some (numberOfTarget target))))
        else throw (.notFound app (numberOfTarget target)) := by
  unfold apply
  rw [hsorted, Run.ofExcept_ok_bind, Option.map_some]
  dsimp only
  cases ordered.any (·.number == numberOfTarget target) <;> rfl

/-- The names of those in a list that are not recorded are the answer, behind those done before. -/
theorem names_of_applyAll {state : AppSchema} {recorded done : List String} {rest : List Migration}
    (hok : migrator.applyAll recorded state done rest τ = .ok names τ') :
    names = done ++ unrecorded recorded rest := by
  induction rest generalizing state done τ with
  | nil =>
      cases hok
      exact (List.append_nil _).symm
  | cons migration rest ih =>
      cases appliesFirst_of_ok hok with
      | skipped hrecorded _ _ hrest =>
          rw [unrecorded_cons_of_recorded hrecorded]
          exact ih hrest
      | applied hrecorded _ _ hrest =>
          rw [unrecorded_cons hrecorded, ih hrest, List.append_assoc, List.singleton_append]

/-- The answer names what was listed and not recorded. -/
theorem names_of_applyListed {listed : List Migration}
    (hok : migrator.applyListed app listed τ = .ok names τ') : ∃ records τ₁,
      migrator.entries app τ = .ok records τ₁ ∧
      names = unrecorded (records.map (·.name)) listed := by
  obtain ⟨records, τ₁, hentries, hok⟩ := bind_eq_ok.mp hok
  obtain ⟨applied, τ₂, hall, hok⟩ := bind_eq_ok.mp hok
  obtain ⟨lines, hconcluded⟩ := concluded_eq app applied τ₂
  cases hconcluded.symm.trans hok
  exact ⟨records, τ₁, hentries, names_of_applyAll hall⟩

/-! ### Rolling back -/

def withRows (records : List LedgerEntry) (ordered : List Migration) : List Migration :=
  ordered.filter fun migration => records.any (·.name == migration.name)

/-- The answer names the recorded migrations above the target, last ones first. -/
theorem names_of_rollbackListed {records : List LedgerEntry}
    (hok : migrator.rollbackListed app ordered target records τ = .ok names τ') :
    names = (((withRows records ordered).filter
      (numberOfTarget target < ·.number)).reverse).map (·.name) := by
  obtain ⟨⟨⟩, τ₁, -, hok⟩ := bind_eq_ok.mp hok
  obtain ⟨undo, τ₂, hanswer, hok⟩ := bind_eq_ok.mp hok
  obtain ⟨⟨⟩, τ₃, -, hok⟩ := bind_eq_ok.mp hok
  obtain ⟨⟨⟩, τ₄, -, hok⟩ := bind_eq_ok.mp hok
  obtain ⟨rfl, -⟩ := pure_eq_ok.mp hok
  rw [withRows, ← map_undoList (Run.ofExcept_eq_ok.mp hanswer).1, ← List.map_reverse, List.map_map]
  rfl

/-! ### Both -/

/-- How a target cuts the migrations of an app. In the order of names applying works through those
before the first one above the target, which are all that are not above it, and its answer is those
of them that have no rows. Rolling back takes those above the target of all that have rows, the last
one first. -/
structure CutsByNumber (migrator : Migrator σ) (app target : String)
    (migrations ordered : List Migration) : Prop where
  perm : ordered.Perm migrations
  sorted : ordered.Pairwise (·.name ≤ ·.name)
  apply_eq : migrator.apply app migrations (some target)
    = if ordered.any (·.number == numberOfTarget target) then
        migrator.applyListed app (ordered.takeWhile (isWithin (some (numberOfTarget target))))
      else throw (.notFound app (numberOfTarget target))
  visited_eq : ordered.takeWhile (isWithin (some (numberOfTarget target)))
    = ordered.filter (·.number ≤ numberOfTarget target)
  applied_eq : ∀ τ names τ', migrator.apply app migrations (some target) τ = .ok names τ' →
    ∃ records τ₁, migrator.entries app τ = .ok records τ₁ ∧ names
      = unrecorded (records.map (·.name)) (ordered.filter (·.number ≤ numberOfTarget target))
  rollback_eq : migrator.rollback app migrations target
    = (migrator.entries app >>= migrator.rollbackListed app ordered target)
  selected_eq : ∀ records undo,
    undoList (numberOfTarget target) { app } (withRows records ordered) = .ok undo →
      undo.map (·.1) = (withRows records ordered).filter (numberOfTarget target < ·.number)
  undone_eq : ∀ τ names τ', migrator.rollback app migrations target τ = .ok names τ' →
    ∃ records τ₁, migrator.entries app τ = .ok records τ₁ ∧ names
      = (((withRows records ordered).filter (numberOfTarget target < ·.number)).reverse).map
        (·.name)

/-- In an order by name both cuts are by number. -/
theorem cutsByNumber (hnumbered : ∀ migration ∈ migrations, migration.Numbered)
    (hsorted : Migrator.sorted app migrations = .ok ordered) (hperm : ordered.Perm migrations)
    (hascending : ordered.Pairwise (·.name ≤ ·.name)) :
    migrator.CutsByNumber app target migrations ordered where
  perm := hperm
  sorted := hascending
  apply_eq := apply_of_sorted hsorted
  visited_eq := takeWhile_isWithin_of_sorted
    (fun migration hmem => hnumbered migration (hperm.mem_iff.mp hmem)) hascending _
  applied_eq := by
    intro τ names τ' hok
    rw [apply_of_sorted hsorted] at hok
    split at hok
    · rw [takeWhile_isWithin_of_sorted
        (fun migration hmem => hnumbered migration (hperm.mem_iff.mp hmem)) hascending] at hok
      exact names_of_applyListed hok
    · exact absurd hok throw_ne_ok
  rollback_eq := rollback_of_sorted hsorted
  selected_eq := fun _ _ hok => map_undoList hok
  undone_eq := by
    intro τ names τ' hok
    rw [rollback_of_sorted hsorted] at hok
    obtain ⟨records, τ₁, hentries, hok⟩ := bind_eq_ok.mp hok
    exact ⟨records, τ₁, hentries, names_of_rollbackListed hok⟩

/-- A name that is not above another has a number that is not above the other's. Hence a target,
whatever text it is, cuts any list of numbered migrations of an app by their numbers; and where one
belongs to another app, nothing is applied or rolled back at all. -/
theorem target_drops_nothing (migrator : Migrator σ) (app target : String)
    (hnumbered : ∀ migration ∈ migrations, migration.Numbered) :
    (∀ name other number number' label label',
      MigrationName.decode name = .ok (number, label) →
      MigrationName.decode other = .ok (number', label') → name ≤ other → number ≤ number') ∧
    ((∀ migration ∈ migrations, migration.app = app) →
      ∃ ordered, migrator.CutsByNumber app target migrations ordered) ∧
    ∀ foreign ∈ migrations, foreign.app ≠ app → ∃ e,
      migrator.apply app migrations (some target) = throw e ∧
      migrator.rollback app migrations target = throw e := by
  refine ⟨fun _ _ _ _ _ _ => MigrationName.number_le, fun happs => ?_,
    fun foreign hmem hforeign => ?_⟩
  · obtain ⟨ordered, hsorted, hperm, hascending⟩ := exists_sorted happs
    exact ⟨ordered, cutsByNumber hnumbered hsorted hperm hascending⟩
  · obtain ⟨e, herror⟩ := sorted_of_foreign hmem hforeign
    refine ⟨e, ?_, ?_⟩
    · unfold apply
      rw [herror]
      rfl
    · unfold rollback
      rw [herror]
      rfl

/-- A migration whose number is in the digits of another script, which come behind those from 0 to
9. -/
def easternMigration : Migration where
  app := "notes"
  name := "٠٠٠١_label"

/-- It is labelled as the first migration, in digits that come behind the target as a text. It is
sorted last then, and leaving it out drops nothing that is not above the target. -/
theorem eastern_label_left_out : ∃ ordered,
    (atMoment clerk Operation.noteMoment).CutsByNumber "notes" "0002_rank"
      [easternMigration, rankMigration, Operation.noteMigration] ordered ∧
    ∀ migration, migration ∈ ordered.takeWhile (isWithin (some "0002")) ↔
      migration = rankMigration ∨ migration = Operation.noteMigration := by
  have hnumbered : ∀ migration ∈ [easternMigration, rankMigration, Operation.noteMigration],
      migration.Numbered := by decide +kernel
  obtain ⟨-, hcuts, -⟩ :=
    target_drops_nothing (atMoment clerk Operation.noteMoment) "notes" "0002_rank"
    hnumbered
  obtain ⟨ordered, hcut⟩ := hcuts (by decide +kernel)
  refine ⟨ordered, hcut, fun migration => ?_⟩
  have hnumber : numberOfTarget "0002_rank" = "0002" := by decide +kernel
  have heastern : ¬easternMigration.number ≤ "0002" := by decide +kernel
  have hrank : rankMigration.number ≤ "0002" := by decide +kernel
  have hnote : Operation.noteMigration.number ≤ "0002" := by decide +kernel
  have hvisited := hcut.visited_eq
  rw [hnumber] at hvisited
  rw [hvisited, List.mem_filter, hcut.perm.mem_iff, decide_eq_true_iff, List.mem_cons,
    List.mem_pair]
  constructor
  · rintro ⟨rfl | hmem, hle⟩
    · exact absurd hle heastern
    · exact hmem
  · rintro (rfl | rfl)
    · exact ⟨.inr (.inl rfl), hrank⟩
    · exact ⟨.inr (.inr rfl), hnote⟩

end Migrator

end SchemaHistory
