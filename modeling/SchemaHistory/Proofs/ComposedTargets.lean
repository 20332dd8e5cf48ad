import SchemaHistory.Proofs.ComposedCalls
import SchemaHistory.Proofs.DependableStore

/-!
# Targets that compose

To apply the migrations of an app up to one target and then up to a higher one is to apply them up
to the higher one at once, and likewise for rolling back (`targets_compose`). The second call starts
from the ledger alone. What the first one has applied is recorded there, so it is skipped, and what
depends on it finds its row.
-/

namespace SchemaHistory

/-- Two runs from one state do the same, but for what clocks show: they give one answer or fail for
one reason, ask for the same changes, and leave the same rows in the ledger. -/
structure Run.Matches {σ κ α : Type} (log : σ → List Event) (view : σ → View κ)
    (clocks : DateTime → DateTime → Prop) (run run' : Run σ α) (s : σ) : Prop where
  answer : run.answerOf ⟨s, #[]⟩ = run'.answerOf ⟨s, #[]⟩
  requests : List.Forall₂ (Request.Alike clocks)
    (changesBetween log s (Migrator.finish run ⟨s, #[]⟩).database)
    (changesBetween log s (Migrator.finish run' ⟨s, #[]⟩).database)
  ledger : (view (Migrator.finish run ⟨s, #[]⟩).database).ledger.map LedgerEntry.undated
    = (view (Migrator.finish run' ⟨s, #[]⟩).database).ledger.map LedgerEntry.undated

namespace Migrator

variable {σ κ ν : Type} {backend : Backend σ} {effect : Statement → κ → Option κ}
  {view : σ → View κ} {log : σ → List Event} {numbering : Numbering ν} {count : σ → ν} {s : σ}
  {app : String} {migrations ordered : List Migration}

/-- Runs that go side by side from one state match. -/
theorem matches_of_sideBySide {clocks : DateTime → DateTime → Prop} {run run' : Run σ (List String)}
    (h : SideBySide (Run.logOf log) clocks run run' ⟨s, #[]⟩ ⟨s, #[]⟩
      (fun τ τ' => Abreast view count false τ.database τ'.database)
      fun names names' τ τ' => names = names' ∧ Abreast view count false τ.database τ'.database)
    (hgranted : Granted log s (finish run ⟨s, #[]⟩).database)
    (hgranted' : Granted log s (finish run' ⟨s, #[]⟩).database) :
    run.Matches log view clocks run' s := by
  obtain ⟨hrequests, hend⟩ := Run.sideBySide_finish h hgranted hgranted'
  obtain ⟨hanswer, habreast⟩ := hend.eq
  exact ⟨hanswer, hrequests, habreast.ledger⟩

/-- If everything in a list is recorded, a call only reads. Where its query is not refused, it gives
no names. -/
theorem onlyReads_of_recorded (h : backend.Dependable effect view log numbering count)
    {now : DateTime} {listed : List Migration} {final : AppSchema}
    (hfinal : listed.foldlM AppSchema.next { app } = .ok final)
    (hrecorded : ∀ migration ∈ listed, (view s).ledger.any (·.isFor app migration.name) = true) :
    ((atMoment backend now).applyListed app listed).OnlyReads log view s ∧
      (Granted log s (finish ((atMoment backend now).applyListed app listed) ⟨s, #[]⟩).database →
        ((atMoment backend now).applyListed app listed).answerOf ⟨s, #[]⟩ = .ok []) := by
  have hasks : Asks (Run.logOf log) (fun request => ∃ app, request = .query (Ledger.query app))
      ((atMoment backend now).entries app) :=
        asks_entries (h.logsOf now) (fun app => ⟨app, rfl⟩) app
  cases hentries : (atMoment backend now).entries app ⟨s, #[]⟩ with
  | ok records τ =>
      obtain ⟨rfl, hview⟩ := entries_ok (show (atMoment backend now).backend.Reliable effect view
        from h.reliable now) rfl hentries
      obtain ⟨lines, hskipped⟩ : ∃ lines, (atMoment backend now).applyAll
          (((view s).ledger.filter (·.app == app)).map (·.name)) { app } [] listed τ
            = .ok [] { τ with lines } := applyAll_of_recorded (fun migration hmem =>
        Ledger.contains_name_eq.trans (hrecorded migration hmem)) hfinal τ
      obtain ⟨lines', hlines⟩ := concluded_eq app [] { τ with lines }
      have hrun : (atMoment backend now).applyListed app listed ⟨s, #[]⟩
          = .ok [] { τ with lines := lines' } :=
        bind_eq_ok.mpr ⟨_, τ, hentries, bind_eq_ok.mpr ⟨_, _, hskipped, hlines⟩⟩
      refine ⟨⟨?_, ?_⟩, fun _ => ?_⟩
      · unfold finish
        rw [hrun]
        exact hasks.ok _ _ _ hentries
      · unfold finish
        rw [hrun]
        exact hview
      · unfold Run.answerOf
        rw [hrun]
  | error e τ =>
      have hrun : (atMoment backend now).applyListed app listed ⟨s, #[]⟩ = .error e τ :=
        bind_eq_error.mpr (Or.inl hentries)
      refine ⟨⟨?_, ?_⟩, fun hgranted => ?_⟩
      · unfold finish
        rw [hrun]
        exact hasks.error _ _ _ hentries
      · unfold finish
        rw [hrun]
        exact (looks_entries (h.reliable now).unmoved).error _ _ _ hentries
      · -- the query would have been refused
        unfold finish at hgranted
        rw [hrun] at hgranted
        have hlooked := h.granting_entries now app ⟨s, #[]⟩ (.error e) τ hentries hgranted
        cases hlooked.1

section Targets

variable (h : backend.Dependable effect view log numbering count)
  (horder : Migration.InOrder app migrations ordered) (hclosed : (view s).saved = none)

include h horder hclosed

/-- Applying up to one target and then up to a higher one is applying up to the higher one. -/
theorem apply_composes {first second whole : DateTime} {low high : String}
    (hlow : ∃ migration ∈ migrations, migration.number = numberOfTarget low)
    (hhigh : ∃ migration ∈ migrations, migration.number = numberOfTarget high)
    (hle : numberOfTarget low ≤ numberOfTarget high) :
    SideBySide (Run.logOf log) (fun a b => (a = first ∨ a = second) ∧ b = whole)
      (((atMoment backend first).apply app migrations (some low)).followedBy
        ((atMoment backend second).apply app migrations (some high)))
      ((atMoment backend whole).apply app migrations (some high)) ⟨s, #[]⟩ ⟨s, #[]⟩
      (fun τ τ' => Abreast view count false τ.database τ'.database)
      fun names names' τ τ' => names = names' ∧
        Abreast view count false τ.database τ'.database := by
  obtain ⟨lower, hlower, hlow⟩ := hlow
  obtain ⟨higher, hhigher, hhigh⟩ := hhigh
  have hwithin : ∀ migration : Migration, isWithin (some (numberOfTarget low)) migration = true →
      isWithin (some (numberOfTarget high)) migration = true := by
    intro migration
    simp only [isWithin, Bool.not_eq_true', decide_eq_false_iff_not, not_lt]
    exact fun hbelow => hbelow.trans hle
  have hpart : ordered.takeWhile (isWithin (some (numberOfTarget high))) <+: ordered :=
    List.takeWhile_prefix _
  rw [apply_eq_of_known _ horder (horder.perm.mem_iff.mpr hlower) hlow,
    apply_eq_of_known _ horder (horder.perm.mem_iff.mpr hhigher) hhigh,
    apply_eq_of_known _ horder (horder.perm.mem_iff.mpr hhigher) hhigh,
    applyWithin_eq, applyWithin_eq, applyWithin_eq, Option.map_some, Option.map_some,
    takeWhile_eq_append hwithin]
  rw [takeWhile_eq_append hwithin] at hpart
  exact h.sideBySide_applyTwice (fun migration hmem => horder.app_of_mem (hpart.subset hmem))
    ((horder.ascending.sublist hpart.sublist).imp fun hlt => ne_of_lt hlt) (.refl hclosed)

/-- Where a call has succeeded, the same call once more has nothing to do. -/
theorem apply_again {first second : DateTime} {target : Option String} {names : List String}
    (hok : ((atMoment backend first).apply app migrations target).answerOf ⟨s, #[]⟩ = .ok names)
    (hgranted : Granted log s
      (finish ((atMoment backend first).apply app migrations target) ⟨s, #[]⟩).database) :
    let again := (atMoment backend second).apply app migrations target
    let t := (finish ((atMoment backend first).apply app migrations target) ⟨s, #[]⟩).database
    again.OnlyReads log view t ∧
      (Granted log t (finish again ⟨t, #[]⟩).database → again.answerOf ⟨t, #[]⟩ = .ok []) := by
  rcases apply_eq_of_sorted horder.sorted_eq
    with ⟨number, heq⟩ | heq
  · rw [heq] at hok
    cases hok
  · rw [heq, applyWithin_eq] at hok hgranted
    rw [heq, heq, applyWithin_eq, applyWithin_eq]
    have hdone : Granting (Run.logOf log) ((atMoment backend first).applyListed app
        (ordered.takeWhile (isWithin (target.map numberOfTarget)))) ⟨s, #[]⟩ _ :=
      h.granting_applyListed (fun migration hmem =>
        horder.app_of_mem ((List.takeWhile_prefix _).subset hmem)) hclosed
    obtain ⟨⟨final, hfinal⟩, hrecorded⟩ := hdone.run hgranted names hok
    exact onlyReads_of_recorded h hfinal hrecorded

/-- Let a database do what it is asked whatever the clock shows, keep a log, number the rows of its
ledger by what it has been asked for, and have no transaction open. Let an app have numbered
migrations with distinct names, and let nothing be refused. Applying up to one of their numbers and
then up to one that is not lower does the same as applying up to this one at once: the same changes
are asked for, the same rows are in the ledger in the end, and the names of both calls are those of
the one, or both fail for the same reason. Where applying has succeeded, applying again with the
same target only reads the ledger, and gives no names. Rolling back to one target and then to one
that is not higher does the same as rolling back to this one at once. -/
theorem targets_compose (first second whole : DateTime) :
    let clocks (a b : DateTime) : Prop := (a = first ∨ a = second) ∧ b = whole
    (∀ low high : String, (∃ migration ∈ migrations, migration.number = numberOfTarget low) →
      (∃ migration ∈ migrations, migration.number = numberOfTarget high) →
      numberOfTarget low ≤ numberOfTarget high →
      let twice := ((atMoment backend first).apply app migrations (some low)).followedBy
        ((atMoment backend second).apply app migrations (some high))
      let once := (atMoment backend whole).apply app migrations (some high)
      Granted log s (finish twice ⟨s, #[]⟩).database →
        Granted log s (finish once ⟨s, #[]⟩).database →
      twice.Matches log view clocks once s) ∧
    (∀ (target : Option String) (names : List String),
      let once := (atMoment backend first).apply app migrations target
      let again := (atMoment backend second).apply app migrations target
      let t := (finish once ⟨s, #[]⟩).database
      once.answerOf ⟨s, #[]⟩ = .ok names → Granted log s t →
      again.OnlyReads log view t ∧
        (Granted log t (finish again ⟨t, #[]⟩).database → again.answerOf ⟨t, #[]⟩ = .ok [])) ∧
    ∀ low high : String, numberOfTarget low ≤ numberOfTarget high →
      let twice := ((atMoment backend first).rollback app migrations high).followedBy
        ((atMoment backend second).rollback app migrations low)
      let once := (atMoment backend whole).rollback app migrations low
      Granted log s (finish twice ⟨s, #[]⟩).database →
        Granted log s (finish once ⟨s, #[]⟩).database →
      twice.Matches log view clocks once s := by
  refine ⟨?_, ?_, ?_⟩
  · intro low high hlow hhigh hle twice once hgranted hgranted'
    exact matches_of_sideBySide (apply_composes h horder hclosed hlow hhigh hle) hgranted hgranted'
  · intro target names once again t hok hgranted
    exact apply_again h horder hclosed hok hgranted
  · intro low high hle twice once hgranted hgranted'
    exact matches_of_sideBySide (h.sideBySide_rollbackTwice horder hle (.refl hclosed)) hgranted
      hgranted'

end Targets

/-! ### Notes, in three years -/

def nextYear : DateTime := ⟨⟨2025, 3, 1, by decide, by decide, by decide⟩, .midnight⟩

def yearAfter : DateTime := ⟨⟨2026, 4, 1, by decide, by decide, by decide⟩, .midnight⟩

def applyNotes (now : DateTime) (target : String) :
    Run (Store (List Statement) × List Event) (List String) :=
  (atMoment clerk now).apply "notes" [rankMigration, Operation.noteMigration] (some target)

def rollbackNotes (now : DateTime) (target : String) :
    Run (Store (List Statement) × List Event) (List String) :=
  (atMoment clerk now).rollback "notes" [rankMigration, Operation.noteMigration] target

def fullDesk : Store (List Statement) × List Event :=
  (finish (applyNotes Operation.noteMoment "0002") ⟨cleanDesk, #[]⟩).database

theorem dependable_clerk : clerk.Dependable writeDown (fun s => s.1.view) Prod.snd Store.numbering
    fun s => Store.keys s.1 :=
  Store.dependable

/-- The notes are applied in two calls a year apart, applied again, and taken back in two calls. -/
theorem notes_in_two_calls :
    let clocks (a b : DateTime) : Prop := (a = Operation.noteMoment ∨ a = nextYear) ∧ b = yearAfter
    let applied := (applyNotes Operation.noteMoment "0001").followedBy (applyNotes nextYear "0002")
    let undone := (rollbackNotes Operation.noteMoment "0001").followedBy
      (rollbackNotes nextYear "0000")
    applied.Matches Prod.snd (fun s => s.1.view) clocks (applyNotes yearAfter "0002") cleanDesk ∧
    applied.answerOf ⟨cleanDesk, #[]⟩ = .ok ["0001_initial", "0002_rank"] ∧
    (applyNotes nextYear "0002").answerOf ⟨fullDesk, #[]⟩ = .ok [] ∧
    undone.Matches Prod.snd (fun s => s.1.view) clocks (rollbackNotes yearAfter "0000") fullDesk ∧
    undone.answerOf ⟨fullDesk, #[]⟩ = .ok ["0002_rank", "0001_initial"] := by
  intro clocks applied undone
  have hfull : (fullDesk.1.view).saved = none := by
    unfold fullDesk applyNotes Migrator.apply
    rw [sorted_notes]
    decide +kernel
  have happlied : applied.answerOf ⟨cleanDesk, #[]⟩ = .ok ["0001_initial", "0002_rank"] ∧
      Granted Prod.snd cleanDesk (finish applied ⟨cleanDesk, #[]⟩).database ∧
      Granted Prod.snd cleanDesk
        (finish (applyNotes yearAfter "0002") ⟨cleanDesk, #[]⟩).database := by
    unfold applied Run.followedBy applyNotes Migrator.apply Granted
    rw [sorted_notes]
    decide +kernel
  have hagain : (applyNotes Operation.noteMoment "0002").answerOf ⟨cleanDesk, #[]⟩
        = .ok ["0001_initial", "0002_rank"] ∧
      Granted Prod.snd cleanDesk fullDesk ∧
      Granted Prod.snd fullDesk (finish (applyNotes nextYear "0002") ⟨fullDesk, #[]⟩).database := by
    unfold fullDesk applyNotes Migrator.apply Granted
    rw [sorted_notes]
    decide +kernel
  have hundone : undone.answerOf ⟨fullDesk, #[]⟩ = .ok ["0002_rank", "0001_initial"] ∧
      Granted Prod.snd fullDesk (finish undone ⟨fullDesk, #[]⟩).database ∧
      Granted Prod.snd fullDesk
        (finish (rollbackNotes yearAfter "0000") ⟨fullDesk, #[]⟩).database := by
    unfold undone fullDesk Run.followedBy applyNotes rollbackNotes Migrator.apply Migrator.rollback
      Granted
    rw [sorted_notes]
    decide +kernel
  have hclean := targets_compose dependable_clerk inOrder_notes
    (show cleanDesk.1.view.saved = none from rfl) Operation.noteMoment nextYear yearAfter
  have hlast := targets_compose dependable_clerk inOrder_notes hfull Operation.noteMoment nextYear
    yearAfter
  refine ⟨?_, happlied.1, ?_, ?_, hundone.1⟩
  · exact hclean.1 "0001" "0002" (by decide) (by decide) (by decide) happlied.2.1 happlied.2.2
  · exact (hclean.2.1 (some "0002") _ hagain.1 hagain.2.1).2 hagain.2.2
  · exact hlast.2.2 "0000" "0001" (by decide) hundone.2.1 hundone.2.2

end Migrator

end SchemaHistory
