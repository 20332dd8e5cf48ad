import SchemaHistory.Proofs.DryPlans
import SchemaHistory.Proofs.SharedLedger

/-!
# What recorded migrations depend on

Several apps share one ledger, and each call is given all the migrations of its app. What a recorded
migration depends on is recorded too, unless a later call has rolled it back: applying looks at what
each migration depends on, rolling back only at the migrations of its app. Within one app the
recorded migrations are the first ones in the order of their names, so nothing there can be missing.
-/

namespace SchemaHistory

namespace Ledger

/-- A migration has a row. -/
def Has (ledger : List LedgerEntry) (app name : String) : Prop :=
  ledger.any (·.isFor app name) = true

/-- What the ledger holds of one app: the first migrations in the order of their names, and among
these all that they depend on in their own app. -/
structure Keeps (ledger : List LedgerEntry) (app : String) (ordered : List Migration) : Prop where
  known : ∀ name, Has ledger app name → ∃ migration ∈ ordered, migration.name = name
  down : ∀ migration ∈ ordered, ∀ earlier ∈ ordered, earlier.name < migration.name →
    Has ledger app migration.name → Has ledger app earlier.name
  own : ∀ migration ∈ ordered, Has ledger app migration.name →
    ∀ needed ∈ migration.dependencies, needed.1 = app →
      ∃ earlier ∈ ordered, earlier.name = needed.2 ∧ earlier.name < migration.name

section Rows

variable {before after : List LedgerEntry} {app name : String} {migrations ordered : List Migration}
  {applied undone left : List Migration} {target : Option String}

/-- After migrations were applied the ledger has them and what it had. -/
theorem has_of_adds (h : Adds applied before after) :
    Has after app name ↔
      Has before app name ∨ ∃ migration ∈ applied, migration.app = app ∧ migration.name = name := by
  obtain ⟨entries, hentries, rfl⟩ := h
  unfold Has
  rw [List.any_append, Bool.or_eq_true]
  refine or_congr_right ?_
  induction hentries with
  | nil => exact ⟨fun hnone => absurd hnone Bool.false_ne_true, fun ⟨_, hmem, _⟩ => nomatch hmem⟩
  | @cons migration entry rest entries hentry _ ih =>
      obtain ⟨happ, hname, -⟩ := hentry
      rw [List.any_cons, Bool.or_eq_true, ih, LedgerEntry.isFor, happ, hname, Bool.and_eq_true,
        beq_iff_eq, beq_iff_eq, List.exists_mem_cons_iff]

/-- After migrations were undone it has what it had without them. -/
theorem has_of_removes (h : Removes undone before after) :
    Has after app name ↔
      Has before app name ∧ ∀ migration ∈ undone,
        ¬(migration.app = app ∧ migration.name = name) := by
  have hsame : ∀ entry : LedgerEntry, entry.isFor app name = true →
      ((undone.all fun migration => !entry.isFor migration.app migration.name) = true ↔
        ∀ migration ∈ undone, ¬(migration.app = app ∧ migration.name = name)) := by
    intro entry hentry
    obtain ⟨rfl, rfl⟩ : entry.app = app ∧ entry.name = name := by
      simpa [LedgerEntry.isFor] using hentry
    rw [List.all_eq_true]
    refine forall₂_congr fun migration _ => ?_
    rw [Bool.not_eq_true', ← Bool.not_eq_true, LedgerEntry.isFor, Bool.and_eq_true, beq_iff_eq,
      beq_iff_eq, eq_comm, eq_comm (a := entry.name)]
  unfold Has
  rw [h, List.any_filter, List.any_eq_true, List.any_eq_true]
  constructor
  · rintro ⟨entry, hmem, hentry⟩
    obtain ⟨hall, hfor⟩ := Bool.and_eq_true_iff.mp hentry
    exact ⟨⟨entry, hmem, hfor⟩, (hsame entry hfor).mp hall⟩
  · rintro ⟨⟨entry, hmem, hfor⟩, hall⟩
    exact ⟨entry, hmem, Bool.and_eq_true_iff.mpr ⟨(hsame entry hfor).mpr hall, hfor⟩⟩

theorem not_has_nil : ¬Has [] app name := Bool.false_ne_true

theorem Keeps.empty : Keeps [] app ordered where
  known _ h := absurd h not_has_nil
  down _ _ _ _ _ h := absurd h not_has_nil
  own _ _ h := absurd h not_has_nil

/-- Rows of other apps make no difference. -/
theorem Keeps.congr (h : Keeps before app ordered)
    (hsame : ∀ name, Has after app name ↔ Has before app name) : Keeps after app ordered where
  known name hname := h.known name ((hsame name).mp hname)
  down migration hmem earlier hearlier hlt hhas :=
    (hsame _).mpr (h.down migration hmem earlier hearlier hlt ((hsame _).mp hhas))
  own migration hmem hhas := h.own migration hmem ((hsame _).mp hhas)

/-- A recorded migration is above the target if its number is higher. -/
theorem mem_above {target : String} {migration : Migration} :
    migration ∈ above before app target ordered ↔ migration ∈ ordered ∧
      Has before app migration.name ∧ Migrator.numberOfTarget target < migration.number := by
  rw [above, List.mem_reverse, List.mem_filter, recorded, List.mem_filter, decide_eq_true_iff,
    and_assoc, Has]

variable (horder : Migration.InOrder app migrations ordered)

include horder

/-- What is named before a migration within the target is within it, too. -/
theorem isWithin_of_lt {number? : Option String} {earlier migration : Migration}
    (hearlier : earlier ∈ ordered) (hmem : migration ∈ ordered)
    (hlt : earlier.name < migration.name)
    (h : Migrator.isWithin number? migration = true) :
    Migrator.isWithin number? earlier = true := by
  cases number? with
  | none => rfl
  | some number =>
      have hle := not_lt.mp (Migration.number_le (horder.numbered_of_mem hearlier)
        (horder.numbered_of_mem hmem) hlt)
      simp only [Migrator.isWithin, Bool.not_eq_true', decide_eq_false_iff_not, not_lt] at h ⊢
      exact hle.trans h

/-- The first pending migrations get their rows. -/
theorem Keeps.adds (h : Keeps before app ordered)
    (hpending : pending before app target ordered = applied ++ left)
    (hadds : Adds applied before after) (hsupplied : Supplied before applied) :
    Keeps after app ordered := by
  have happlied : ∀ migration ∈ applied, migration ∈ pending before app target ordered :=
    fun migration hmem => hpending ▸ List.mem_append_left _ hmem
  have hhas : ∀ migration ∈ ordered, Has after app migration.name ↔
      Has before app migration.name ∨ migration ∈ applied := by
    intro migration hmem
    rw [has_of_adds hadds]
    refine or_congr_right ⟨?_, fun hin => ⟨migration, hin, horder.app_of_mem hmem, rfl⟩⟩
    rintro ⟨other, hother, -, hname⟩
    have hin := (mem_pending.mp (happlied other hother)).1.1
    exact Migration.eq_of_name_eq horder.ascending hin hmem hname ▸ hother
  constructor
  · intro name hname
    rcases (has_of_adds hadds).mp hname with hname | ⟨migration, hmem, -, rfl⟩
    · exact h.known name hname
    · exact ⟨migration, (mem_pending.mp (happlied migration hmem)).1.1, rfl⟩
  · intro migration hmem earlier hearlier hlt hafter
    rw [hhas _ hmem] at hafter
    rw [hhas _ hearlier]
    rcases hafter with hbefore | hin
    · exact Or.inl (h.down migration hmem earlier hearlier hlt hbefore)
    · by_cases hthere : Has before app earlier.name
      · exact Or.inl hthere
      -- an earlier migration that is pending too comes before this one
      have hwithin : Migrator.isWithin (target.map Migrator.numberOfTarget) earlier = true :=
        isWithin_of_lt horder hearlier hmem hlt (mem_pending.mp (happlied migration hin)).1.2
      have hpends : earlier ∈ applied ++ left :=
        hpending ▸ mem_pending.mpr ⟨⟨hearlier, hwithin⟩, hthere⟩
      rcases List.mem_append.mp hpends with hin' | hleft
      · exact Or.inr hin'
      · have hsorted : (applied ++ left).Pairwise (·.name < ·.name) := by
          rw [← hpending]
          exact (horder.ascending.filter _).filter _
        exact absurd ((List.pairwise_append.mp hsorted).2.2 migration hin earlier hleft)
          (lt_asymm hlt)
  · intro migration hmem hafter needed hneeded happ
    rcases (hhas _ hmem).mp hafter with hbefore | hin
    · exact h.own migration hmem hbefore needed hneeded happ
    · rcases hsupplied migration hin needed hneeded with hrecorded | ⟨earlier, hearlier, heq, hlt⟩
      · -- what is recorded of the app comes before what is not
        rw [happ] at hrecorded
        obtain ⟨earlier, hearlier, hname⟩ := h.known needed.2 hrecorded
        refine ⟨earlier, hearlier, hname, ?_⟩
        have hnot := (mem_pending.mp (happlied migration hin)).2
        rw [← hname] at hrecorded
        rcases lt_trichotomy earlier.name migration.name with hlt | heq | hgt
        · exact hlt
        · exact absurd (heq ▸ hrecorded) hnot
        · exact absurd (h.down earlier hearlier migration hmem hgt hrecorded) hnot
      · have hordered := (mem_pending.mp (happlied earlier hearlier)).1.1
        exact ⟨earlier, hordered, congrArg Prod.snd heq, hlt⟩

/-- The last recorded migrations lose their rows. -/
theorem Keeps.removes {target : String} (h : Keeps before app ordered)
    (habove : above before app target ordered = undone ++ left)
    (hremoves : Removes undone before after) : Keeps after app ordered := by
  have hundone : ∀ migration ∈ undone, migration ∈ above before app target ordered :=
    fun migration hmem => habove ▸ List.mem_append_left _ hmem
  have hhas : ∀ migration ∈ ordered, Has after app migration.name ↔
      Has before app migration.name ∧ migration ∉ undone := by
    intro migration hmem
    rw [has_of_removes hremoves]
    refine and_congr_right fun _ => ⟨fun hnone hin => ?_, fun hnot other hother hsame => ?_⟩
    · exact hnone migration hin ⟨horder.app_of_mem hmem, rfl⟩
    · have hin := (mem_above.mp (hundone other hother)).1
      exact hnot (Migration.eq_of_name_eq horder.ascending hin hmem hsame.2 ▸ hother)
  constructor
  · intro name hname
    exact h.known name ((has_of_removes hremoves).mp hname).1
  · intro migration hmem earlier hearlier hlt hafter
    rw [hhas _ hmem] at hafter
    rw [hhas _ hearlier]
    refine ⟨h.down migration hmem earlier hearlier hlt hafter.1, fun hin => hafter.2 ?_⟩
    -- the later one is above the target too, and it is undone first
    obtain ⟨-, -, hnumber⟩ := mem_above.mp (hundone earlier hin)
    have hnumber' : Migrator.numberOfTarget target < migration.number :=
      lt_of_lt_of_le hnumber (not_lt.mp (Migration.number_le (horder.numbered_of_mem hearlier)
        (horder.numbered_of_mem hmem) hlt))
    have hgoes : migration ∈ undone ++ left :=
      habove ▸ mem_above.mpr ⟨hmem, hafter.1, hnumber'⟩
    rcases List.mem_append.mp hgoes with hin' | hleft
    · exact hin'
    · have hdescending : (undone ++ left).Pairwise fun a b => b.name < a.name := by
        rw [← habove]
        exact List.pairwise_reverse.mpr ((horder.ascending.filter _).filter _)
      exact absurd ((List.pairwise_append.mp hdescending).2.2 earlier hin migration hleft)
        (lt_asymm hlt)
  · intro migration hmem hafter
    exact h.own migration hmem ((hhas _ hmem).mp hafter).1

end Rows

end Ledger

namespace Migrator

variable {σ κ : Type} {effect : Statement → κ → Option κ} {view : σ → View κ} {backend : Backend σ}
  {lists ordered : String → List Migration} {calls : List (String × Call)}
  {app : String} {migration : Migration} {τ : Transcript σ}

/-- Makes calls for several apps one after the other, however each of them ends. Each is given all
the migrations of its app. -/
def afterAll (backend : Backend σ) (lists : String → List Migration)
    (calls : List (String × Call)) (τ : Transcript σ) : Transcript σ :=
  calls.foldl (fun τ (app, call) => finish (call.run backend app (lists app)) τ) τ

theorem afterAll_concat (call : Call) : afterAll backend lists (calls ++ [(app, call)]) τ
    = finish (call.run backend app (lists app)) (afterAll backend lists calls τ) := by
  rw [afterAll, List.foldl_append]
  rfl

/-! ### A call -/

/-- What a call may do to the ledger. A dry run does nothing. -/
inductive CallTurns (app : String) (ordered : List Migration) :
    Call → List LedgerEntry → List LedgerEntry → Prop
  | nothing (call : Call) (ledger : List LedgerEntry) : CallTurns app ordered call ledger ledger
  | adds {target : Option String} {applied left : List Migration} {before after : List LedgerEntry}
      (hpending : Ledger.pending before app target ordered = applied ++ left)
      (hadds : Ledger.Adds applied before after) (hsupplied : Ledger.Supplied before applied) :
      CallTurns app ordered (.apply target) before after
  | removes {target : String} {undone left : List Migration} {before after : List LedgerEntry}
      (habove : Ledger.above before app target ordered = undone ++ left)
      (hremoves : Ledger.Removes undone before after) :
      CallTurns app ordered (.rollback target) before after

theorem exists_finish {α : Type} (run : Run σ α) (τ : Transcript σ) :
    ∃ answer, run τ = Backend.answered answer (finish run τ) := by
  cases hrun : run τ with
  | ok a τ' => exact ⟨.ok a, by rw [finish_of_ok hrun]; rfl⟩
  | error e τ' => exact ⟨.error e, by rw [finish_of_error hrun]; rfl⟩

/-- A run that only looks leaves what is in view. -/
theorem view_of_looks {α : Type} {run : Run σ α} (hlooks : Run.Looks view run) :
    view (finish run τ).database = view τ.database := by
  cases hrun : run τ with
  | ok a τ' => exact finish_of_ok hrun ▸ hlooks.ok _ _ _ hrun
  | error e τ' => exact finish_of_error hrun ▸ hlooks.error _ _ _ hrun

/-- However a call ends, it turns the ledger of its own app and leaves no transaction open. -/
theorem callTurns (h : backend.Reliable effect view) (hguards : backend.GuardsLedger view)
    {migrations ordered : List Migration} (horder : Migration.InOrder app migrations ordered)
    (hclosed : (view τ.database).saved = none) (call : Call) :
    (view (finish (call.run backend app migrations) τ).database).saved = none ∧
      CallTurns app ordered call (view τ.database).ledger
        (view (finish (call.run backend app migrations) τ).database).ledger := by
  have hreliable : ∀ dryRun, (Migrator.mk backend dryRun).backend.Reliable effect view := fun _ => h
  have hlooks : Run.Looks view (call.run backend app migrations) →
      (view (finish (call.run backend app migrations) τ).database).saved = none ∧
      CallTurns app ordered call (view τ.database).ledger
        (view (finish (call.run backend app migrations) τ).database).ledger := by
    intro hlooks
    rw [view_of_looks hlooks]
    exact ⟨hclosed, .nothing _ _⟩
  obtain ⟨answer, hrun⟩ := exists_finish (call.run backend app migrations) τ
  cases call with
  | apply target dryRun =>
      cases dryRun with
      | true => exact hlooks (looks_apply (hreliable true) rfl target)
      | false =>
          obtain ⟨hclosed', applied, left, hpending, hadds, hsupplied⟩ :=
            apply_rows (hreliable false) hguards rfl horder hclosed hrun
          exact ⟨hclosed', .adds hpending hadds hsupplied⟩
  | rollback target dryRun =>
      cases dryRun with
      | true => exact hlooks (looks_rollback (hreliable true) rfl target)
      | false =>
          obtain ⟨hclosed', undone, left, habove, hremoves⟩ :=
            rollback_rows (hreliable false) hguards rfl horder hclosed hrun
          exact ⟨hclosed', .removes habove hremoves⟩

section Turn

variable {called : String} {call : Call} {before after : List LedgerEntry}
  (horder : ∀ app, Migration.InOrder app (lists app) (ordered app))

include horder

/-- A call does nothing to the rows of other apps, and keeps to the order of names in its own. -/
theorem CallTurns.keeps (hturns : CallTurns called (ordered called) call before after)
    (hkeeps : Ledger.Keeps before app (ordered app)) : Ledger.Keeps after app (ordered app) := by
  cases hturns with
  | nothing => exact hkeeps
  | adds hpending hadds hsupplied =>
      by_cases happ : app = called
      · subst happ
        exact hkeeps.adds (horder app) hpending hadds hsupplied
      · refine hkeeps.congr fun name => (Ledger.has_of_adds hadds).trans (or_iff_left ?_)
        rintro ⟨other, hother, hsame, -⟩
        have hmem := (Ledger.mem_pending.mp (hpending ▸ List.mem_append_left _ hother)).1.1
        exact happ (hsame.symm.trans ((horder called).app_of_mem hmem))
  | removes habove hremoves =>
      by_cases happ : app = called
      · subst happ
        exact hkeeps.removes (horder app) habove hremoves
      · refine hkeeps.congr fun name => (Ledger.has_of_removes hremoves).trans (and_iff_left ?_)
        rintro other hother ⟨hsame, -⟩
        have hmem := (Ledger.mem_above.mp (habove ▸ List.mem_append_left _ hother)).1
        exact happ (hsame.symm.trans ((horder called).app_of_mem hmem))

/-- A row is lost only in rolling back its app. -/
theorem CallTurns.of_lost (hturns : CallTurns called (ordered called) call before after)
    {needed : String × String} (hbefore : Ledger.Has before needed.1 needed.2)
    (hafter : ¬Ledger.Has after needed.1 needed.2) :
    called = needed.1 ∧ ∃ target, call = .rollback target := by
  cases hturns with
  | nothing => exact absurd hbefore hafter
  | adds _ hadds _ => exact absurd ((Ledger.has_of_adds hadds).mpr (Or.inl hbefore)) hafter
  | removes habove hremoves =>
      rw [Ledger.has_of_removes hremoves] at hafter
      push Not at hafter
      obtain ⟨other, hother, hsame, -⟩ := hafter hbefore
      have hmem := (Ledger.mem_above.mp (habove ▸ List.mem_append_left _ hother)).1
      exact ⟨((horder called).app_of_mem hmem).symm.trans hsame, _, rfl⟩

/-- A migration gets its row only where all that it depends on has one too. -/
theorem CallTurns.of_gained (hturns : CallTurns called (ordered called) call before after)
    (hmem : migration ∈ ordered app) (hbefore : ¬Ledger.Has before app migration.name)
    (hafter : Ledger.Has after app migration.name) {needed : String × String}
    (hneeded : needed ∈ migration.dependencies) : Ledger.Has after needed.1 needed.2 := by
  cases hturns with
  | nothing => exact absurd hafter hbefore
  | removes _ hremoves => exact absurd ((Ledger.has_of_removes hremoves).mp hafter).1 hbefore
  | adds hpending hadds hsupplied =>
      obtain ⟨other, hother, happ, hname⟩ :=
        ((Ledger.has_of_adds hadds).mp hafter).resolve_left hbefore
      have hin := (Ledger.mem_pending.mp (hpending ▸ List.mem_append_left _ hother)).1.1
      obtain rfl : called = app := ((horder called).app_of_mem hin).symm.trans happ
      obtain rfl := Migration.eq_of_name_eq (horder called).ascending hin hmem hname
      rw [Ledger.has_of_adds hadds]
      rcases hsupplied other hother needed hneeded with hrecorded | ⟨earlier, hearlier, heq, -⟩
      · exact Or.inl hrecorded
      · exact Or.inr ⟨earlier, hearlier, congrArg Prod.fst heq, congrArg Prod.snd heq⟩

end Turn

/-! ### Any calls -/

/-- Both were recorded when a call rolled back the app of what the migration depends on. This took
the record of that away, and it has been missing ever since, while the migration has stayed
recorded. -/
def TakenBack (ledgerAfter : List (String × Call) → List LedgerEntry) (calls : List (String × Call))
    (app name : String) (needed : String × String) : Prop :=
  ∃ earlier target later, calls = earlier ++ (needed.1, .rollback target) :: later ∧
    Ledger.Has (ledgerAfter earlier) app name ∧
    Ledger.Has (ledgerAfter earlier) needed.1 needed.2 ∧
    ∀ between, between <+: later →
      Ledger.Has (ledgerAfter (earlier ++ (needed.1, .rollback target) :: between)) app name ∧
      ¬Ledger.Has (ledgerAfter (earlier ++ (needed.1, .rollback target) :: between))
        needed.1 needed.2

section TakenBack

variable {ledgerAfter : List (String × Call) → List LedgerEntry} {name : String}
  {needed : String × String}

/-- A call that takes a dependency away and leaves the migration is one that takes it back. -/
theorem TakenBack.here {target : String} (hmigration : Ledger.Has (ledgerAfter calls) app name)
    (hneeded : Ledger.Has (ledgerAfter calls) needed.1 needed.2)
    (hstays : Ledger.Has (ledgerAfter (calls ++ [(needed.1, .rollback target)])) app name)
    (hlost : ¬Ledger.Has (ledgerAfter (calls ++ [(needed.1, .rollback target)]))
      needed.1 needed.2) :
    TakenBack ledgerAfter (calls ++ [(needed.1, .rollback target)]) app name needed := by
  refine ⟨calls, target, [], rfl, hmigration, hneeded, fun between hbetween => ?_⟩
  rw [List.prefix_nil.mp hbetween]
  exact ⟨hstays, hlost⟩

theorem TakenBack.concat {last : String × Call} (h : TakenBack ledgerAfter calls app name needed)
    (hstays : Ledger.Has (ledgerAfter (calls ++ [last])) app name)
    (hmissing : ¬Ledger.Has (ledgerAfter (calls ++ [last])) needed.1 needed.2) :
    TakenBack ledgerAfter (calls ++ [last]) app name needed := by
  obtain ⟨earlier, target, later, rfl, hmigration, hneeded, hsince⟩ := h
  rw [List.append_assoc, List.cons_append] at hstays hmissing ⊢
  refine ⟨earlier, target, later ++ [last], rfl, hmigration, hneeded, fun between hbetween => ?_⟩
  rcases List.prefix_concat_iff.mp hbetween with rfl | hbetween
  · exact ⟨hstays, hmissing⟩
  · exact hsince between hbetween

end TakenBack

/-- Let several apps share a reliable database that may refuse whatever it likes, and let their
ledger be empty. Make any calls with all the migrations of an app each, dry runs among them. Each
row is of a migration that is given. What a recorded migration depends on in its own app is
recorded. What it depends on in another app is recorded too, or rolling back that app has taken the
record away. -/
theorem recorded_with_dependencies (h : backend.Reliable effect view)
    (hguards : backend.GuardsLedger view)
    (horder : ∀ app, Migration.InOrder app (lists app) (ordered app))
    (hclosed : (view τ.database).saved = none) (hempty : (view τ.database).ledger = [])
    (calls : List (String × Call)) :
    let ledgerAfter calls := (view (afterAll backend lists calls τ).database).ledger
    (∀ entry ∈ ledgerAfter calls,
      ∃ migration ∈ lists entry.app, migration.name = entry.name) ∧
    ∀ app, ∀ migration ∈ lists app, Ledger.Has (ledgerAfter calls) app migration.name →
      ∀ needed ∈ migration.dependencies,
        Ledger.Has (ledgerAfter calls) needed.1 needed.2 ∨
          (needed.1 ≠ app ∧ TakenBack ledgerAfter calls app migration.name needed) := by
  intro ledgerAfter
  have hmem : ∀ {app : String} {migration : Migration},
      migration ∈ lists app ↔ migration ∈ ordered app := fun {app _} =>
    (horder app).perm.mem_iff.symm
  suffices hinvariant : (view (afterAll backend lists calls τ).database).saved = none ∧
      (∀ app, Ledger.Keeps (ledgerAfter calls) app (ordered app)) ∧
      ∀ app, ∀ migration ∈ ordered app, Ledger.Has (ledgerAfter calls) app migration.name →
        ∀ needed ∈ migration.dependencies,
          Ledger.Has (ledgerAfter calls) needed.1 needed.2 ∨
            TakenBack ledgerAfter calls app migration.name needed by
    obtain ⟨-, hkeeps, hneeds⟩ := hinvariant
    constructor
    · intro entry hentry
      have hhas : Ledger.Has (ledgerAfter calls) entry.app entry.name :=
        List.any_eq_true.mpr ⟨entry, hentry, by simp [LedgerEntry.isFor]⟩
      obtain ⟨migration, hin, hname⟩ := (hkeeps entry.app).known _ hhas
      exact ⟨migration, hmem.mpr hin, hname⟩
    · intro app migration hin hhas needed hneeded
      by_cases happ : needed.1 = app
      · refine Or.inl ?_
        obtain ⟨earlier, hearlier, hname, hlt⟩ :=
          (hkeeps app).own migration (hmem.mp hin) hhas needed hneeded happ
        rw [happ, ← hname]
        exact (hkeeps app).down migration (hmem.mp hin) earlier hearlier hlt hhas
      · exact (hneeds app migration (hmem.mp hin) hhas needed hneeded).imp_right fun htaken =>
          ⟨happ, htaken⟩
  -- one call after the other, from the empty ledger
  induction calls using List.reverseRecOn with
  | nil =>
      have hnone : ledgerAfter [] = [] := hempty
      rw [hnone]
      exact ⟨hclosed, fun _ => .empty, fun _ _ _ hhas => absurd hhas Ledger.not_has_nil⟩
  | append_singleton calls last ih =>
      obtain ⟨called, call⟩ := last
      obtain ⟨hclosed', hkeeps, hneeds⟩ := ih
      obtain ⟨hclosed'', hturns⟩ := callTurns h hguards (horder called) hclosed' call
      rw [← afterAll_concat] at hclosed'' hturns
      refine ⟨hclosed'', fun app => hturns.keeps horder (hkeeps app), ?_⟩
      intro app migration hin hhas needed hneeded
      by_cases hthere : Ledger.Has (ledgerAfter (calls ++ [(called, call)])) needed.1 needed.2
      · exact Or.inl hthere
      refine Or.inr ?_
      by_cases hbefore : Ledger.Has (ledgerAfter calls) app migration.name
      · rcases hneeds app migration hin hbefore needed hneeded with hneededBefore | htaken
        · obtain ⟨rfl, target, rfl⟩ := hturns.of_lost horder hneededBefore hthere
          exact .here hbefore hneededBefore hhas hthere
        · exact htaken.concat hhas hthere
      · exact absurd (hturns.of_gained horder hin hbefore hhas hneeded) hthere

/-! ### Pages that users depend on -/

open Plan

def appLists (app : String) : List Migration :=
  if app = "main" then [pageMigration, postMigration]
  else if app = "auth" then [userMigration]
  else []

theorem inOrder_appLists (app : String) :
    Migration.InOrder app (appLists app) (appLists app) := by
  unfold appLists
  split
  · next happ => exact happ ▸ inOrder_main
  split
  · next happ => exact happ ▸ inOrder_auth
  · exact ⟨.refl _, .nil, List.forall_mem_nil _, List.forall_mem_nil _⟩

/-- The pages are added and then the users, who depend on them. Then the pages are rolled back. -/
def pageCalls : List (String × Call) :=
  [("main", .apply (some "0001")), ("auth", .apply none), ("main", .rollback "0000")]

def rowsAfter (calls : List (String × Call)) : List (String × String) :=
  (afterAll writer appLists calls nothingThere).database.view.ledger.map
    fun entry => (entry.app, entry.name)

/-- What the ledger has after the calls, computed. -/
theorem has_of_rowsAfter {calls : List (String × Call)} {app name : String} :
    Ledger.Has (afterAll writer appLists calls nothingThere).database.view.ledger app name ↔
      (app, name) ∈ rowsAfter calls := by
  simp [Ledger.Has, rowsAfter, LedgerEntry.isFor]

theorem rowsAfter_pageCalls : rowsAfter pageCalls = [("auth", "0001_initial")] := by
  have hmain : appLists "main" = [pageMigration, postMigration] := rfl
  have hauth : appLists "auth" = [userMigration] := rfl
  unfold rowsAfter afterAll pageCalls
  simp only [List.foldl, Call.run, Migrator.apply, Migrator.rollback, hmain, hauth, sorted_main,
    sorted_auth]
  decide +kernel

/-- The users are recorded, and the pages that they depend on are not. -/
theorem users_without_pages :
    writer.Reliable (fun statement written => some (written ++ [statement])) Store.view ∧
    writer.GuardsLedger Store.view ∧ (∀ app, Migration.InOrder app (appLists app) (appLists app)) ∧
    nothingThere.database.view.ledger = [] ∧
    userMigration ∈ appLists "auth" ∧ ("main", "0001_initial") ∈ userMigration.dependencies ∧
    Ledger.Has (afterAll writer appLists pageCalls nothingThere).database.view.ledger
      "auth" userMigration.name ∧
    ¬Ledger.Has (afterAll writer appLists pageCalls nothingThere).database.view.ledger
      "main" "0001_initial" := by
  refine ⟨Store.reliable _ _ _ _, Or.inl rfl, inOrder_appLists, rfl, List.mem_singleton.mpr rfl,
    List.mem_singleton.mpr rfl, ?_, ?_⟩
  · rw [has_of_rowsAfter, rowsAfter_pageCalls]
    decide
  · rw [has_of_rowsAfter, rowsAfter_pageCalls]
    decide

/-- It is rolling back the main app that has taken the record of the pages away. -/
theorem pages_taken_back :
    TakenBack (fun calls => (afterAll writer appLists calls nothingThere).database.view.ledger)
      pageCalls "auth" "0001_initial" ("main", "0001_initial") := by
  have hreliable : writer.Reliable (fun statement written => some (written ++ [statement]))
      Store.view := Store.reliable _ _ _ _
  have hguards : writer.GuardsLedger Store.view := Or.inl rfl
  obtain ⟨-, hneeds⟩ := recorded_with_dependencies (τ := nothingThere) hreliable hguards
    inOrder_appLists rfl rfl pageCalls
  have husers : ("auth", "0001_initial") ∈ rowsAfter pageCalls := by
    rw [rowsAfter_pageCalls]
    decide
  have hpages : ("main", "0001_initial") ∉ rowsAfter pageCalls := by
    rw [rowsAfter_pageCalls]
    decide
  have htaken := hneeds "auth" userMigration (List.mem_singleton.mpr rfl)
    (has_of_rowsAfter.mpr husers) ("main", "0001_initial") (List.mem_singleton.mpr rfl)
  exact (htaken.resolve_left fun hhas => hpages (has_of_rowsAfter.mp hhas)).2

end Migrator

end SchemaHistory
