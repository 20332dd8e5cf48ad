import SchemaHistory.Proofs.AllOrNothing
import SchemaHistory.Proofs.MigrationEffects

/-!
# The ledger and the tables agree

However often migrations are applied and rolled back, to whatever targets, and whatever the database
refuses meanwhile: what the ledger records are the first migrations of the app, and the database has
the tables and indexes of the state that these lead to. `Migrator.Agreement` is the invariant. One
call preserves it (`Agreement.call`), and so do any calls.
-/

namespace SchemaHistory

namespace Migration

/-! ### Tables along migrations -/

variable {dialect : Dialect} {now : DateTime} {app : String}
  {ordered earlier later : List Migration}
  {migration : Migration} {s t : AppSchema} {db db' : Catalog}

/-- Migrations carried out forward take tables that hold a replayed state to tables that hold the
state after them. -/
theorem Carried.held_forward {pending : List Migration} (hnodup : ordered.Nodup)
    (happs : ∀ migration ∈ ordered, migration.app = app)
    (hfields : ∀ migration ∈ ordered, migration.FieldsDiffer)
    (hordered : ordered = earlier ++ (pending ++ later))
    (hreplay : AppSchema.replay app earlier = .ok s) (hheld : s.HeldBy db)
    (h : Carried (fun statement db => db.execute statement)
      (HasScript dialect now app false ordered)
      pending db db') :
    ∃ t, AppSchema.replay app (earlier ++ pending) = .ok t ∧ t.HeldBy db' := by
  induction h generalizing earlier s with
  | nil db =>
      rw [List.append_nil]
      exact ⟨s, hreplay, hheld⟩
  | @cons migration rest statements db between db' hscript heffects _ ih =>
      have hmem : migration ∈ ordered := by
        rw [hordered]
        exact List.mem_append_right _ List.mem_cons_self
      -- `earlier` is generalized: the migration is behind the rest of them afterwards
      have hsound : s.Sound := by
        refine AppSchema.replay_sound (fun other hother => hfields other ?_) hreplay
        rw [hordered]
        exact List.mem_append_left _ hother
      obtain ⟨state, hreplay', hscript'⟩ := hscript.state hnodup hordered
      obtain rfl : s = state := Except.ok.inj (hreplay.symm.trans hreplay')
      have happ : migration.app = s.app := by
        rw [happs migration hmem, AppSchema.app_eq_of_replay hreplay]
      obtain ⟨next, hnext, hheld'⟩ :=
        forward_held_of_script hsound (hfields migration hmem) happ hheld hscript' heffects
      rw [List.append_cons]
      refine ih ?_ (AppSchema.replay_append_singleton.mpr ⟨s, hreplay, hnext⟩) hheld'
      rw [hordered, List.append_assoc]
      rfl

/-- Migrations undone from the last one on take the tables back to the state before them. -/
theorem Carried.held_backward {undone : List Migration} (hnodup : ordered.Nodup)
    (hfields : ∀ migration ∈ ordered, migration.FieldsDiffer)
    (hordered : ordered = earlier ++ (undone.reverse ++ later))
    (hreplay : AppSchema.replay app (earlier ++ undone.reverse) = .ok s) (hheld : s.HeldBy db)
    (h : Carried (fun statement db => db.execute statement) (HasScript dialect now app true ordered)
      undone db db') :
    ∃ t, AppSchema.replay app earlier = .ok t ∧ t.HeldBy db' := by
  induction h generalizing later s with
  | nil db =>
      rw [List.reverse_nil, List.append_nil] at hreplay
      exact ⟨s, hreplay, hheld⟩
  | @cons migration rest statements db between db' hscript heffects _ ih =>
      -- the last migration applied is undone first, and is among `later` afterwards
      rw [List.reverse_cons, List.append_assoc] at hordered
      rw [List.reverse_cons, ← List.append_assoc] at hreplay
      obtain ⟨before, hbefore, hnext⟩ := AppSchema.replay_append_singleton.mp hreplay
      have hplace : ordered = (earlier ++ rest.reverse) ++ migration :: later := by
        rw [hordered, List.append_assoc]
        rfl
      have hsound : before.Sound := by
        refine AppSchema.replay_sound (fun other hother => hfields other ?_) hbefore
        rw [hplace]
        exact List.mem_append_left _ hother
      have hmem : migration ∈ ordered := by
        rw [hplace]
        exact List.mem_append_right _ List.mem_cons_self
      obtain ⟨state, hreplay', hscript'⟩ := hscript.state hnodup hplace
      obtain rfl : before = state := Except.ok.inj (hbefore.symm.trans hreplay')
      exact ih hordered hbefore
        (backward_held_of_script hsound (hfields migration hmem) hnext hheld hscript' heffects)

end Migration

namespace Ledger

/-! ### Rows of migrations -/

variable {app name : String} {ledger : List LedgerEntry}
  {ordered applied rest migrations : List Migration}

/-- The rows are those of some migrations, one for each. -/
def Lists (migrations : List Migration) (ledger : List LedgerEntry) : Prop :=
  List.Forall₂ (fun migration entry =>
    Records migration.app migration.name migration.number entry) migrations ledger

theorem isFor_iff {migration : Migration} {entry : LedgerEntry} (happ : migration.app = app)
    (h : Records migration.app migration.name migration.number entry) :
    entry.isFor app name = true ↔ migration.name = name := by
  obtain ⟨happ', hname, -⟩ := h
  simp [LedgerEntry.isFor, happ', hname, happ]

/-- Where the ledger lists migrations of one app, a name is recorded exactly if one of them has
it. -/
theorem Lists.any_isFor (h : Lists applied ledger)
    (happs : ∀ migration ∈ applied, migration.app = app) :
    ledger.any (·.isFor app name) = true ↔ name ∈ applied.map (·.name) := by
  induction h with
  | nil => simp
  | cons hrecords _ ih =>
      obtain ⟨happ, hrest⟩ := List.forall_mem_cons.mp happs
      rw [List.any_cons, Bool.or_eq_true, isFor_iff happ hrecords, ih hrest, List.map_cons,
        List.mem_cons, eq_comm]

variable (horder : Migration.InOrder app migrations (applied ++ rest))
  (hledger : Lists applied ledger)

include horder hledger

/-- A migration that was applied is recorded. -/
theorem recorded_of_mem {migration : Migration} (hmem : migration ∈ applied) :
    ledger.any (·.isFor app migration.name) = true := by
  have happs : ∀ other ∈ applied, other.app = app :=
    fun other hother => horder.app_of_mem (List.mem_append_left _ hother)
  exact (hledger.any_isFor happs).mpr (List.mem_map_of_mem hmem)

/-- A migration that comes after those that were applied is not. -/
theorem not_recorded_of_mem {migration : Migration} (hmem : migration ∈ rest) :
    ledger.any (·.isFor app migration.name) = false := by
  rw [Bool.eq_false_iff]
  intro hany
  have happs : ∀ other ∈ applied, other.app = app :=
    fun other hother => horder.app_of_mem (List.mem_append_left _ hother)
  obtain ⟨other, hother, hname⟩ := List.mem_map.mp ((hledger.any_isFor happs).mp hany)
  have hlt := (List.pairwise_append.mp horder.ascending).2.2 other hother migration hmem
  exact ne_of_lt hlt hname

/-- The recorded migrations are the first ones. -/
theorem recorded_eq : recorded ledger app (applied ++ rest) = applied := by
  have happlied :
      applied.filter (fun migration => ledger.any (·.isFor app migration.name)) = applied :=
    List.filter_eq_self.mpr fun migration hmem => recorded_of_mem horder hledger hmem
  have hrest : rest.filter (fun migration => ledger.any (·.isFor app migration.name)) = [] := by
    refine List.filter_eq_nil_iff.mpr fun migration hmem => ?_
    simp [not_recorded_of_mem horder hledger hmem]
  unfold recorded
  rw [List.filter_append, happlied, hrest, List.append_nil]

/-- What is pending are the first ones of the others. -/
theorem pending_eq (target : Option String) : pending ledger app target (applied ++ rest)
    = rest.takeWhile (Migrator.isWithin (target.map Migrator.numberOfTarget)) := by
  have happlied :
      applied.filter (fun migration => !ledger.any (·.isFor app migration.name)) = [] := by
    refine List.filter_eq_nil_iff.mpr fun migration hmem => ?_
    simp [recorded_of_mem horder hledger hmem]
  have hrest : rest.filter (fun migration => !ledger.any (·.isFor app migration.name)) = rest := by
    refine List.filter_eq_self.mpr fun migration hmem => ?_
    simp [not_recorded_of_mem horder hledger hmem]
  have hnumbered : ∀ migration ∈ rest, migration.Numbered :=
    fun migration hmem => horder.numbered_of_mem (List.mem_append_right _ hmem)
  have hascending := (List.pairwise_append.mp horder.ascending).2.1
  -- what is recorded is left out first, so that the target cuts only the rest
  unfold pending
  rw [List.filter_comm, List.filter_append, happlied, hrest, List.nil_append]
  exact (Migrator.takeWhile_isWithin hnumbered hascending _).symm

/-- What is above a target are the last ones of those that are recorded, backward. -/
theorem above_eq (target : String) : above ledger app target (applied ++ rest)
    = (applied.dropWhile (Migrator.isWithin (some (Migrator.numberOfTarget target)))).reverse := by
  have hnumbered : ∀ migration ∈ applied, migration.Numbered :=
    fun migration hmem => horder.numbered_of_mem (List.mem_append_left _ hmem)
  have hascending := (List.pairwise_append.mp horder.ascending).1
  unfold above
  rw [recorded_eq horder hledger, Migrator.dropWhile_isWithin hnumbered hascending]

omit horder hledger in
/-- Without some migrations, and without their rows. -/
theorem Lists.filter (h : Lists migrations ledger) (removed : List Migration) :
    Lists
      (migrations.filter fun migration =>
        removed.all fun other => !(migration.app == other.app && migration.name == other.name))
      (ledger.filter fun entry => removed.all fun other => !entry.isFor other.app other.name) := by
  induction h with
  | nil => exact .nil
  | @cons migration entry migrations ledger hrecords _ ih =>
      have hsame :
          (removed.all fun other => !entry.isFor other.app other.name) = removed.all fun other =>
          !(migration.app == other.app && migration.name == other.name) := by
        obtain ⟨happ, hname, -⟩ := hrecords
        unfold LedgerEntry.isFor
        rw [happ, hname]
      rw [List.filter_cons, List.filter_cons, hsame]
      split
      · exact .cons hrecords ih
      · exact ih

end Ledger

namespace Migrator

/-! ### One call -/

/-- The ledger and the tables agree: the recorded migrations are the first ones of the app, and
there are the tables and indexes of the state that these lead to. No transaction is open. -/
structure Agreement (app : String) (ordered applied : List Migration) (state : AppSchema)
    (view : View Catalog) : Prop where
  place : ∃ rest, ordered = applied ++ rest
  ledger : Ledger.Lists applied view.ledger
  replay : AppSchema.replay app applied = .ok state
  tables : state.HeldBy view.contents
  closed : view.saved = none

section Steps

variable {app : String} {migrations ordered applied carried left : List Migration}
  {state : AppSchema}
  {before after : View Catalog} {dialect : Dialect} {now : DateTime}

/-- What a call of applying has carried out joins those that are applied. -/
theorem Agreement.advanced (h : Agreement app ordered applied state before)
    (horder : Migration.InOrder app migrations ordered)
    (hfields : ∀ migration ∈ migrations, migration.FieldsDiffer) {target : Option String}
    (hpending : Ledger.pending before.ledger app target ordered = carried ++ left)
    (hadvanced : View.Advanced (fun statement db => db.execute statement)
      (Migration.HasScript dialect now app false ordered) carried before after) :
    ∃ state', Agreement app ordered (applied ++ carried) state' after := by
  obtain ⟨rest, rfl⟩ := h.place
  have hsplit := Ledger.pending_eq horder h.ledger target
  rw [hpending] at hsplit
  obtain ⟨later, rfl⟩ : ∃ later, rest = carried ++ later := by
    refine ⟨left ++ rest.dropWhile (isWithin (target.map numberOfTarget)), ?_⟩
    rw [← List.append_assoc, hsplit, List.takeWhile_append_dropWhile]
  obtain ⟨state', hreplay, htables⟩ := hadvanced.contents.held_forward horder.nodup
    (fun _ => horder.app_of_mem)
    (fun migration hmem => hfields migration (horder.perm.mem_iff.mp hmem)) rfl h.replay h.tables
  obtain ⟨entries, hentries, hledger⟩ := hadvanced.ledger
  refine ⟨state', ⟨later, ?_⟩, ?_, hreplay, htables, hadvanced.saved⟩
  · rw [List.append_assoc]
  · rw [hledger]
    exact List.rel_append h.ledger hentries

/-- What a call of rolling back has undone leaves them, from the last one on. -/
theorem Agreement.receded (h : Agreement app ordered applied state before)
    (horder : Migration.InOrder app migrations ordered)
    (hfields : ∀ migration ∈ migrations, migration.FieldsDiffer) {target : String}
    (habove : Ledger.above before.ledger app target ordered = carried ++ left)
    (hreceded : View.Receded (fun statement db => db.execute statement)
      (Migration.HasScript dialect now app true (Ledger.recorded before.ledger app ordered)) carried
      before after) :
    ∃ kept state', Agreement app ordered kept state' after := by
  obtain ⟨rest, rfl⟩ := h.place
  have hsplit := Ledger.above_eq horder h.ledger target
  rw [habove, eq_comm, List.reverse_eq_iff, List.reverse_append] at hsplit
  obtain ⟨kept, rfl⟩ : ∃ kept, applied = kept ++ carried.reverse := by
    refine ⟨applied.takeWhile (isWithin (some (numberOfTarget target))) ++ left.reverse, ?_⟩
    rw [List.append_assoc, ← hsplit, List.takeWhile_append_dropWhile]
  rw [Ledger.recorded_eq horder h.ledger] at hreceded
  have happlied : ∀ migration ∈ kept ++ carried.reverse, migration.FieldsDiffer :=
    fun migration hmem => hfields migration (horder.perm.mem_iff.mp (List.mem_append_left _ hmem))
  have hbelow := List.pairwise_append.mp (List.pairwise_append.mp horder.ascending).1
  obtain ⟨state', hreplay, htables⟩ := hreceded.contents.held_backward
    (List.nodup_append.mp horder.nodup).1 happlied (by rw [List.append_nil]) h.replay h.tables
  refine ⟨kept, state', ⟨carried.reverse ++ rest, ?_⟩, ?_, hreplay, htables, hreceded.saved⟩
  · rw [List.append_assoc]
  · -- the rows that were struck are those of the migrations that were undone, and only those
    have hledger := h.ledger.filter carried
    rw [← hreceded.ledger, List.filter_append, List.filter_eq_self.mpr, List.filter_eq_nil_iff.mpr,
      List.append_nil] at hledger
    · exact hledger
    · intro migration hmigration hall
      have hother := List.all_eq_true.mp hall migration (List.mem_reverse.mp hmigration)
      simp at hother
    · intro migration hmigration
      refine List.all_eq_true.mpr fun other hother => ?_
      have hlt := hbelow.2.2 migration hmigration other (List.mem_reverse.mpr hother)
      simp [ne_of_lt hlt]

end Steps

/-! ### Any calls -/

def finish {σ α : Type} (run : Run σ α) (τ : Transcript σ) : Transcript σ :=
  match run τ with
  | .ok _ τ' | .error _ τ' => τ'

theorem finish_of_ok {σ α : Type} {run : Run σ α} {τ τ' : Transcript σ} {a : α}
    (h : run τ = .ok a τ') :
    finish run τ = τ' := by
  unfold finish
  rw [h]

theorem finish_of_error {σ α : Type} {run : Run σ α} {τ τ' : Transcript σ} {e : MigrationError}
    (h : run τ = .error e τ') : finish run τ = τ' := by
  unfold finish
  rw [h]

/-- A call of a migrator, which may be one that does dry runs. -/
inductive Call where
  | apply (target : Option String) (dryRun : Bool := false)
  | rollback (target : String) (dryRun : Bool := false)

variable {σ : Type}

def Call.run (backend : Backend σ) (app : String) (migrations : List Migration) :
    Call → Run σ (List String)
  | .apply target dryRun => Migrator.apply { backend, dryRun } app migrations target
  | .rollback target dryRun => Migrator.rollback { backend, dryRun } app migrations target

/-- Makes calls one after the other, however each of them ends. -/
def afterCalls (backend : Backend σ) (app : String) (migrations : List Migration)
    (calls : List Call)
    (τ : Transcript σ) : Transcript σ :=
  calls.foldl (fun τ call => finish (call.run backend app migrations) τ) τ

section Calls

variable {backend : Backend σ} {migrator : Migrator σ} {view : σ → View Catalog} {app : String}
  {migrations ordered applied : List Migration} {state : AppSchema} {τ : Transcript σ}

/-- A call that only looks leaves the agreement as it is. -/
theorem Agreement.of_looks {run : Run σ (List String)} (hlooks : Run.Looks view run)
    (hagree : Agreement app ordered applied state (view τ.database)) :
    Agreement app ordered applied state (view (finish run τ).database) := by
  cases hrun : run τ with
  | ok names τ' =>
      rw [finish_of_ok hrun, hlooks.ok _ _ _ hrun]
      exact hagree
  | error e τ' =>
      rw [finish_of_error hrun, hlooks.error _ _ _ hrun]
      exact hagree

/-- However a call of applying ends, ledger and tables agree afterwards, on some more migrations or
on as many. -/
theorem Agreement.apply
    (h : migrator.backend.Reliable (fun statement db => db.execute statement) view)
    (htransactional : migrator.backend.dialect.capabilities.transactional = true)
    (horder : Migration.InOrder app migrations ordered)
    (hfields : ∀ migration ∈ migrations, migration.FieldsDiffer) (target : Option String)
    (hagree : Agreement app ordered applied state (view τ.database)) :
    ∃ applied' state', Agreement app ordered applied' state'
      (view (finish (migrator.apply app migrations target) τ).database) := by
  cases hdry : migrator.dryRun with
  | true => exact ⟨applied, state, hagree.of_looks (looks_apply h hdry target)⟩
  | false =>
      cases hrun : migrator.apply app migrations target τ with
      | ok names τ' =>
          obtain ⟨hadvanced, -⟩ := apply_ok h hdry htransactional horder hagree.closed hrun
          rw [finish_of_ok hrun]
          exact ⟨_, hagree.advanced horder hfields (List.append_nil _).symm hadvanced⟩
      | error e τ' =>
          obtain ⟨carried, left, hpending, hadvanced, -⟩ :=
            apply_error h hdry htransactional horder hagree.closed hrun
          rw [finish_of_error hrun]
          exact ⟨_, hagree.advanced horder hfields hpending hadvanced⟩

/-- However a call of rolling back ends, ledger and tables agree afterwards. -/
theorem Agreement.rollback
    (h : migrator.backend.Reliable (fun statement db => db.execute statement) view)
    (htransactional : migrator.backend.dialect.capabilities.transactional = true)
    (horder : Migration.InOrder app migrations ordered)
    (hfields : ∀ migration ∈ migrations, migration.FieldsDiffer) (target : String)
    (hagree : Agreement app ordered applied state (view τ.database)) :
    ∃ applied' state', Agreement app ordered applied' state'
      (view (finish (migrator.rollback app migrations target) τ).database) := by
  cases hdry : migrator.dryRun with
  | true => exact ⟨applied, state, hagree.of_looks (looks_rollback h hdry target)⟩
  | false =>
      cases hrun : migrator.rollback app migrations target τ with
      | ok names τ' =>
          obtain ⟨hreceded, -⟩ := rollback_ok h hdry htransactional horder hagree.closed hrun
          rw [finish_of_ok hrun]
          exact hagree.receded horder hfields (List.append_nil _).symm hreceded
      | error e τ' =>
          obtain ⟨carried, left, habove, hreceded, -⟩ :=
            rollback_error h hdry htransactional horder hagree.closed hrun
          rw [finish_of_error hrun]
          exact hagree.receded horder hfields habove hreceded

/-- One step: a call of either kind keeps the agreement. -/
theorem Agreement.call
    (h : backend.Reliable (fun statement db => db.execute statement) view)
    (htransactional : backend.dialect.capabilities.transactional = true)
    (horder : Migration.InOrder app migrations ordered)
    (hfields : ∀ migration ∈ migrations, migration.FieldsDiffer) (call : Call)
    (hagree : Agreement app ordered applied state (view τ.database)) :
    ∃ applied' state', Agreement app ordered applied' state'
      (view (finish (call.run backend app migrations) τ).database) := by
  cases call with
  | apply target dryRun =>
      have hreliable : (Migrator.mk backend dryRun).backend.Reliable _ view := h
      exact hagree.apply hreliable htransactional horder hfields target
  | rollback target dryRun =>
      have hreliable : (Migrator.mk backend dryRun).backend.Reliable _ view := h
      exact hagree.rollback hreliable htransactional horder hfields target

/-- The run: by induction on the calls, each of which keeps the agreement. -/
theorem Agreement.calls
    (h : backend.Reliable (fun statement db => db.execute statement) view)
    (htransactional : backend.dialect.capabilities.transactional = true)
    (horder : Migration.InOrder app migrations ordered)
    (hfields : ∀ migration ∈ migrations, migration.FieldsDiffer) (calls : List Call)
    (hagree : Agreement app ordered applied state (view τ.database)) :
    ∃ applied' state', Agreement app ordered applied' state'
      (view (afterCalls backend app migrations calls τ).database) := by
  induction calls generalizing τ applied state with
  | nil => exact ⟨applied, state, hagree⟩
  | cons call calls ih =>
      obtain ⟨applied', state', hagree'⟩ := hagree.call h htransactional horder hfields call
      exact ih hagree'

/-- Let a reliable database, which may refuse whatever it likes, begin without tables and with an
empty ledger. After any calls with any targets, dry runs among them, the ledger and the tables
agree. -/
theorem ledger_and_tables_agree
    (h : backend.Reliable (fun statement db => db.execute statement) view)
    (htransactional : backend.dialect.capabilities.transactional = true)
    (horder : Migration.InOrder app migrations ordered)
    (hfields : ∀ migration ∈ migrations, migration.FieldsDiffer)
    (hempty : (view τ.database).contents = .empty) (hledger : (view τ.database).ledger = [])
    (hclosed : (view τ.database).saved = none) (calls : List Call) :
    ∃ applied state,
      Agreement app ordered applied state
        (view (afterCalls backend app migrations calls τ).database) := by
  have hstart : Agreement app ordered [] { app } (view τ.database) := by
    refine ⟨⟨ordered, rfl⟩, ?_, rfl, ?_, hclosed⟩
    · rw [hledger]
      exact .nil
    · exact AppSchema.heldBy_of_eq ⟨nofun, nofun⟩ hempty
  exact hstart.calls h htransactional horder hfields calls

end Calls

/-- A database that refuses its request number 32, which is to keep a transaction. -/
def shelf : Backend (Store Catalog) :=
  Store.backend .sqlite Operation.noteMoment (fun statement db => db.execute statement)
    fun request _ => request = 32

def shelfStart : Transcript (Store Catalog) := ⟨⟨⟨.empty, [], none, 0⟩, 0⟩, #[]⟩

def shelfCalls : List Call :=
  [.apply none, .rollback "0001" true, .rollback "0001", .apply none]

/-- The rank is added and, after a dry run, taken away again. When it is to be added once more it is
refused, and there are the notes without it. -/
theorem rank_taken_back : Agreement "notes" [Operation.noteMigration, rankMigration]
    [Operation.noteMigration] Operation.noteState
    (afterCalls shelf "notes" [rankMigration, Operation.noteMigration] shelfCalls
      shelfStart).database.view := by
  have hreliable : shelf.Reliable (fun statement db => db.execute statement) Store.view :=
    Store.reliable _ _ _ _
  have hfields :
      ∀ migration ∈ [rankMigration, Operation.noteMigration], migration.FieldsDiffer := by
    simp [rankMigration, Operation.noteMigration, Migration.FieldsDiffer, Operation.FieldsDiffer,
      Operation.rankAdded, Operation.noteModel, Named.names]
  have hempty : (Store.view shelfStart.database).contents = .empty := rfl
  obtain ⟨applied, state, hagree⟩ := ledger_and_tables_agree hreliable rfl inOrder_notes hfields
    hempty rfl rfl shelfCalls
  have hlength : (afterCalls shelf "notes" [rankMigration, Operation.noteMigration] shelfCalls
      shelfStart).database.view.ledger.length = 1 := by
    unfold afterCalls shelfCalls
    simp only [List.foldl, Call.run, Migrator.apply, Migrator.rollback,
      inOrder_notes.sorted_eq]
    decide +kernel
  obtain ⟨rest, hplace⟩ := hagree.place
  have happlied : applied = ([Operation.noteMigration, rankMigration] : List Migration).take 1 := by
    rw [hplace, ← hlength, ← hagree.ledger.length_eq]
    exact (List.take_left' rfl).symm
  have hreplay : AppSchema.replay "notes" [Operation.noteMigration] = .ok Operation.noteState := rfl
  subst happlied
  obtain rfl : Operation.noteState = state := Except.ok.inj (hreplay.symm.trans hagree.replay)
  exact hagree

end Migrator

end SchemaHistory
