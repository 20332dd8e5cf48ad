import SchemaHistory.CommandLine.Program
import SchemaHistory.Proofs.DryRuns
import SchemaHistory.Proofs.PlanCarriedOut

/-!
# Dry runs of a plan

A dry run of migrating carries out the same plan, run by run, but nothing is recorded on the way. So
it finds a dependency on another app only if that was recorded before it began (`Foreseen`), and
when the plan comes back to an app it prints once more what it has printed of that app already.
Where the plan leaves each app for good (`LeavesForGood`), what is printed is what migrating
executes (`dry_run_shows`).
-/

namespace SchemaHistory.Plan

open Migration

variable {σ κ : Type} {migrator : Migrator σ} {effect : Statement → κ → Option κ}
  {view : σ → View κ} {v : View κ} {τ τ' : Transcript σ} {graph : DependencyGraph}
  {plan placed front rest : List Migration} {last migration : Migration}
  {ledger : List LedgerEntry}

/-- What the migrations that are to be applied need of other apps is recorded. -/
def Foreseen (ledger : List LedgerEntry) (plan : List Migration) : Prop :=
  ∀ migration ∈ Ledger.unrecorded ledger plan, ∀ dependency ∈ migration.dependencies,
    dependency.1 = migration.app ∨ ledger.any (·.isFor dependency.1 dependency.2) = true

/-- From a migration that is to be applied the plan goes on in its app, and does not come back to
the app once it has left it. -/
def LeavesForGood (ledger : List LedgerEntry) (plan : List Migration) : Prop :=
  ∀ placed migration between other rest,
    plan = placed ++ migration :: (between ++ other :: rest) →
    ¬ledger.any (·.isFor migration.app migration.name) = true → other.app ≠ migration.app →
    ∀ later ∈ rest, later.app ≠ migration.app

/-! ### What a dry run needs -/

/-- The migrations of the app that a run is about are those of the plan so far that are of the
app. -/
theorem mem_unrecorded_of_pending (h : graph.Stretch placed front last rest)
    (hmem : migration ∈ Ledger.pending ledger last.app (some last.name) (graph.ofApp last.app)) :
    migration ∈ Ledger.unrecorded ledger (placed ++ (front ++ [last])) := by
  obtain ⟨⟨hin, hwithin⟩, hnew⟩ := Ledger.mem_pending.mp hmem
  rw [← (DependencyGraph.mem_ofApp.mp hin).2] at hnew
  exact Ledger.mem_unrecorded.mpr ⟨h.mem_of_isWithin hin (h.isWithin_iff.mp hwithin), hnew⟩

/-- A migration of the plan that the ledger lacks is pending when its stretch is applied up to its
last migration. -/
theorem pending_of_mem_unrecorded (h : graph.Stretch placed front last rest)
    (hmem : migration ∈ Ledger.unrecorded ledger (front ++ [last])) :
    migration ∈ Ledger.pending ledger last.app (some last.name) (graph.ofApp last.app) := by
  obtain ⟨hin, hnew⟩ := Ledger.mem_unrecorded.mp hmem
  have happ := h.app_of_mem hin
  rw [happ] at hnew
  exact Ledger.mem_pending.mpr ⟨⟨DependencyGraph.mem_ofApp.mpr ⟨h.mem_graph hin, happ⟩,
    h.isWithin_iff.mpr (h.isWithin_of_mem hin)⟩, hnew⟩

/-- What a run prints depends only on what is recorded and on what it has printed before. -/
theorem supplied_of_foreseen (h : graph.Stretch placed front last rest)
    (hcomplete : ∀ migration ∈ graph.migrations, ∀ dependency,
      ¬migration.Lacks graph.migrations dependency)
    (hforeseen : Foreseen ledger (placed ++ (front ++ [last]))) :
    Ledger.Supplied ledger
      (Ledger.pending ledger last.app (some last.name) (graph.ofApp last.app)) := by
  intro migration hmem dependency hdependency
  obtain ⟨hin, -⟩ := Ledger.mem_unrecorded.mp (mem_unrecorded_of_pending h hmem)
  obtain ⟨⟨hofApp, hwithin⟩, -⟩ := Ledger.mem_pending.mp hmem
  obtain ⟨-, happ⟩ := DependencyGraph.mem_ofApp.mp hofApp
  rcases hforeseen migration (mem_unrecorded_of_pending h hmem) dependency hdependency with
    hown | hrecorded
  · obtain ⟨earlier, hearlier, rfl, hlt⟩ := h.feasible.of_append.exists_dependency
      h.toldApart.keys hcomplete hin hdependency
    by_cases hthere : ledger.any (·.isFor earlier.app earlier.name) = true
    · exact Or.inl hthere
    · have hown : earlier.app = migration.app := hown
      have hgraph := h.feasible.of_append.subset hearlier
      refine Or.inr ⟨earlier, Ledger.mem_pending.mpr ⟨⟨?_, ?_⟩, ?_⟩, rfl, hlt hown⟩
      · exact DependencyGraph.mem_ofApp.mpr ⟨hgraph, hown.trans happ⟩
      · -- an earlier name has no later number
        have hle := number_le (h.toldApart.numbered earlier hgraph)
          (h.toldApart.numbered migration (h.feasible.of_append.subset hin)) (hlt hown)
        rw [h.isWithin_iff] at hwithin ⊢
        exact not_lt.mpr ((not_lt.mp hle).trans (not_lt.mp hwithin))
      · rw [← happ, ← hown]
        exact hthere
  · exact Or.inl hrecorded

/-- Where the plan leaves apps for good, what a run prints is its stretch, less what is recorded. -/
theorem pending_of_leavesForGood (h : graph.Stretch placed front last rest)
    (hleaves : LeavesForGood ledger (placed ++ (front ++ [last]) ++ rest))
    (happs : ∀ other ∈ placed.getLast?, other.app ≠ last.app) :
    Ledger.pending ledger last.app (some last.name) (graph.ofApp last.app)
      = Ledger.unrecorded ledger (front ++ [last]) := by
  refine h.pending_eq fun migration hmem happ => ?_
  by_contra hnew
  obtain ⟨before, between, rfl⟩ := List.append_of_mem hmem
  -- between the migration and the run there is one of another app
  obtain ⟨middle, other, rfl⟩ : ∃ middle other, between = middle ++ [other] := by
    rcases List.eq_nil_or_concat' between with rfl | ⟨middle, other, rfl⟩
    · exact absurd happ (happs migration (List.getLast?_eq_some_iff.mpr ⟨before, rfl⟩))
    · exact ⟨middle, other, rfl⟩
  have hother : other.app ≠ migration.app := by
    rw [happ]
    exact happs other (List.getLast?_eq_some_iff.mpr ⟨before ++ migration :: middle, by simp⟩)
  have hsplit : before ++ migration :: (middle ++ [other]) ++ (front ++ [last]) ++ rest
      = before ++ migration :: (middle ++ other :: (front ++ [last] ++ rest)) := by
    simp only [List.append_assoc, List.cons_append, List.nil_append]
  exact hleaves _ _ _ _ _ hsplit hnew hother last (by simp) happ.symm

/-! ### Run after run -/

section Carry

variable (h : migrator.backend.Reliable effect view) (hdry : migrator.dryRun = true)
  (htells : migrator.backend.TellsLedger view)

include h hdry htells

/-- What a run prints, where all it comes to can be applied. -/
theorem shows_run (hstretch : graph.Stretch placed front last rest)
    (hdialect : Dialect.byName? migrator.backend.dialect.name = some migrator.backend.dialect)
    (hcomplete : ∀ migration ∈ graph.migrations, ∀ dependency,
      ¬migration.Lacks graph.migrations dependency)
    (hforeseen : Foreseen v.ledger (placed ++ (front ++ [last])))
    (hscripts : ∀ migration ∈ Ledger.unrecorded v.ledger (placed ++ (front ++ [last])),
      ∃ statements,
        HasScript migrator.backend.dialect migrator.backend.now graph migration statements)
    (hreplay : ∃ final, AppSchema.replay last.app ((graph.ofApp last.app).takeWhile
      (Migrator.isWithin ((some last.name).map Migrator.numberOfTarget))) = .ok final) :
    ∃ names scripts,
      List.Forall₂ (HasScript migrator.backend.dialect migrator.backend.now graph)
        (Ledger.pending v.ledger last.app (some last.name) (graph.ofApp last.app)) scripts ∧
      Run.Shows view v (migrator.apply last.app (graph.ofApp last.app) (some last.name)) names
        (scripts.flatten.map (·.line migrator.backend.dialect)) := by
  have happs : ∀ migration ∈ Ledger.pending v.ledger last.app (some last.name)
      (graph.ofApp last.app), migration.app = last.app :=
    fun migration hmem => (DependencyGraph.mem_ofApp.mp (Ledger.mem_pending.mp hmem).1.1).2
  have hlast : last ∈ graph.ofApp last.app :=
    DependencyGraph.mem_ofApp.mpr ⟨hstretch.mem_graph (by simp), rfl⟩
  have hown : ∀ migration ∈ Ledger.pending v.ledger last.app (some last.name)
      (graph.ofApp last.app), ∃ statements, migration.HasScript migrator.backend.dialect
        migrator.backend.now last.app false (graph.ofApp last.app) statements := by
    intro migration hmem
    rw [← happs migration hmem]
    exact hscripts migration (mem_unrecorded_of_pending hstretch hmem)
  obtain ⟨names, scripts, hall, hshows⟩ := Migrator.shows_apply h hdry htells
    (DependencyGraph.inOrder_ofApp hstretch.inOrder hstretch.toldApart) hlast hdialect hreplay hown
    (supplied_of_foreseen hstretch hcomplete hforeseen)
  refine ⟨names, scripts, ((List.forall₂_and_left _ _).mpr ⟨happs, hall⟩).imp ?_, hshows⟩
  rintro migration statements ⟨happ, hscript⟩
  rw [HasScript, happ]
  exact hscript

variable (hgraph : DependencyGraph.InOrder graph.migrations) (htold : ToldApart graph.migrations)
  (hfeasible : Feasible graph.migrations plan)

include hgraph htold hfeasible

theorem shows_carryOut
    (hdialect : Dialect.byName? migrator.backend.dialect.name = some migrator.backend.dialect)
    (hcomplete : ∀ migration ∈ graph.migrations, ∀ dependency,
      ¬migration.Lacks graph.migrations dependency)
    (hforeseen : Foreseen v.ledger plan)
    (hscripts : ∀ migration ∈ Ledger.unrecorded v.ledger plan, ∃ statements,
      HasScript migrator.backend.dialect migrator.backend.now graph migration statements)
    (hplan : plan = placed ++ rest)
    (hreplays : ∀ run ∈ runs rest, ∃ final,
      AppSchema.replay run.app ((graph.ofApp run.app).takeWhile
      (Migrator.isWithin ((some run.last).map Migrator.numberOfTarget))) = .ok final) :
    ∃ scripts,
      Run.Shows view v (carryOut migrator graph (runs rest)) ()
        (scripts.flatten.map (·.line migrator.backend.dialect)) ∧
      (LeavesForGood v.ledger plan →
        (∀ other ∈ placed.getLast?, ∀ next ∈ rest.head?, other.app ≠ next.app) →
        List.Forall₂ (HasScript migrator.backend.dialect migrator.backend.now graph)
          (Ledger.unrecorded v.ledger rest) scripts) := by
  generalize hruns : runs rest = todo at hreplays ⊢
  induction todo generalizing placed rest with
  | nil =>
      obtain rfl := runs_eq_nil.mp hruns
      exact ⟨[], .pure (), fun _ _ => .nil⟩
  | cons run later ih =>
      obtain ⟨front, last, back, rfl, hlater, hfront, happ, hname, hnext⟩ := runs_eq_cons hruns
      obtain ⟨hreplay, hreplays⟩ := List.forall_mem_cons.mp hreplays
      rw [← happ, ← hname] at hreplay
      have hsplit : plan = (placed ++ (front ++ [last])) ++ back := by
        rw [hplan, List.append_cons, ← List.append_assoc]
      have hstretch : graph.Stretch placed front last back :=
        ⟨hgraph, htold, hsplit ▸ hfeasible, happ ▸ hfront⟩
      have hwithin : Ledger.unrecorded v.ledger (placed ++ (front ++ [last]))
          ⊆ Ledger.unrecorded v.ledger plan := by
        intro migration hmem
        rw [hsplit, Ledger.unrecorded_append]
        exact List.mem_append_left _ hmem
      have hforeseen' : Foreseen v.ledger (placed ++ (front ++ [last])) :=
        fun migration hmem => hforeseen migration (hwithin hmem)
      obtain ⟨names, scripts, hall, hshows⟩ := shows_run h hdry htells hstretch hdialect hcomplete
        hforeseen' (fun migration hmem => hscripts migration (hwithin hmem)) hreplay
      obtain ⟨more, hrest, hsame⟩ := ih hsplit hlater hreplays
      refine ⟨scripts ++ more, ?_, fun hleaves happs => ?_⟩
      · rw [List.flatten_append, List.map_append]
        rw [happ, hname] at hshows
        have hrun : Run.Shows view v (do
            let _ ← migrator.apply run.app (graph.ofApp run.app) (some run.last)) ()
            (scripts.flatten.map (·.line migrator.backend.dialect)) := by
          rw [← List.append_nil (scripts.flatten.map _)]
          exact hshows.bind (.pure ())
        exact hrun.bind hrest
      · have hhead : ∀ other ∈ placed.getLast?, other.app ≠ last.app := by
          intro other hother
          cases front with
          | nil => exact happs other hother last rfl
          | cons first front =>
              rw [← hstretch.app_eq first List.mem_cons_self]
              exact happs other hother first rfl
        rw [pending_of_leavesForGood hstretch (hsplit ▸ hleaves) hhead] at hall
        rw [List.append_cons, Ledger.unrecorded_append]
        refine List.rel_append hall (hsame hleaves fun other hother next hin => ?_)
        rw [← List.append_assoc, List.getLast?_concat] at hother
        obtain rfl := Option.some.inj hother
        rw [happ]
        exact (hnext next hin).symm

/-- A dry run that goes through has found what the migrations need. -/
theorem foreseen_of_carryOut (hok : carryOut migrator graph (runs plan) τ = .ok () τ') :
    Foreseen (view τ.database).ledger plan := by
  intro migration hmem
  obtain ⟨hin, hnew⟩ := Ledger.mem_unrecorded.mp hmem
  obtain ⟨run, hrun, placed, front, last, rest, hsplit, hfront, happ, hname, hin⟩ :=
    exists_run_of_mem hin
  have hlooks : ∀ run : PlanRun, Run.Looks view (do
      let _ ← migrator.apply run.app (graph.ofApp run.app) (some run.last)) :=
    fun run => (Migrator.looks_apply h hdry _).bind fun _ => .pure ()
  obtain ⟨τ₁, τ₂, hview, hround⟩ := Run.Looks.exists_of_forM_eq_ok hlooks hok run hrun
  obtain ⟨names, τ₃, happly, -⟩ := bind_eq_ok.mp hround
  rw [← happ] at hfront happly
  rw [← hname] at happly
  have hstretch : graph.Stretch placed front last rest := by
    refine ⟨hgraph, htold, ?_, hfront⟩
    rw [List.append_assoc, List.append_assoc, List.singleton_append, ← hsplit]
    exact hfeasible
  have hlast : last ∈ graph.ofApp last.app :=
    DependencyGraph.mem_ofApp.mpr ⟨hstretch.mem_graph (by simp), rfl⟩
  have hfound := Migrator.recorded_of_apply h hdry htells
    (DependencyGraph.inOrder_ofApp hgraph htold) hlast happly
  rw [hview] at hfound
  have hpending := pending_of_mem_unrecorded hstretch (Ledger.mem_unrecorded.mpr ⟨hin, hnew⟩)
  exact hfound migration hpending

end Carry

/-! ### Choosing and carrying out -/

section Choice

variable {migrations : List Migration} {app? target? : Option String}

/-- A plan that can be carried out from here is one that the whole request carries out. -/
theorem exists_migrate (hplan : IsPlan (.ofList migrations) app? target? plan)
    (hok : carryOut migrator (.ofList migrations) (runs plan) τ = .ok () τ') :
    ∃ τ₁, Plan.migrate migrator migrations app? target? τ = .ok () τ₁ := by
  unfold Plan.migrate
  rw [choose_eq_ok.mpr hplan, Run.ofExcept_ok_bind]
  split
  · exact ⟨_, rfl⟩
  · exact ⟨τ', hok⟩

/-- What has been carried out could be applied. -/
theorem replays_of_carryOut (hgraph : DependencyGraph.InOrder graph.migrations)
    (htold : ToldApart graph.migrations) {todo : List PlanRun}
    (hok : carryOut migrator graph todo τ = .ok () τ') :
    ∀ run ∈ todo, ∃ final, AppSchema.replay run.app ((graph.ofApp run.app).takeWhile
      (Migrator.isWithin ((some run.last).map Migrator.numberOfTarget))) = .ok final := by
  intro run hrun
  obtain ⟨τ₁, τ₂, hround⟩ := exists_of_forM_eq_ok hok run hrun
  obtain ⟨names, τ₃, happly, -⟩ := bind_eq_ok.mp hround
  exact Migrator.replay_of_apply (DependencyGraph.inOrder_ofApp hgraph htold) happly

end Choice

/-! ### The command -/

/-- Preparing the ledger runs the one statement that creates its table where there is none. -/
theorem init_ok (h : migrator.backend.Reliable effect view) (hdry : migrator.dryRun = false)
    (hok : migrator.init τ = .ok () τ') :
    ∃ contents, effect (.create Ledger.model true) (view τ.database).contents = some contents ∧
      view τ'.database = { view τ.database with contents } := by
  unfold Migrator.init at hok
  rw [if_pos (by rw [hdry]; rfl)] at hok
  obtain ⟨t, hcreate, rfl⟩ := Run.onDatabase_eq_ok.mp hok
  obtain ⟨count, u, hexecute, hpure⟩ := bind_eq_ok.mp (adaptExcept_eq_ok.mp hcreate)
  obtain ⟨-, rfl⟩ := pure_eq_ok.mp hpure
  exact h.change _ _ _ _ trivial hexecute

section Command

variable {backend : Backend σ} {store : MigrationStore} {tree : FileTree}
  {migrations : List Migration} {app? target? : Option String}

/-- Migrating creates the ledger and carries out the plan. -/
theorem carryOut_of_migrate (h : backend.Reliable effect view)
    (hread : store.readAll tree = .ok migrations)
    (hok : Program.migrate store tree app? target? { backend } τ = .ok () τ') :
    ∃ plan τ₁ τ₂ contents, IsPlan (.ofList migrations) app? target? plan ∧
      effect (.create Ledger.model true) (view τ.database).contents = some contents ∧
      view τ₁.database = { view τ.database with contents } ∧
      carryOut { backend } (.ofList migrations) (runs plan) τ₁ = .ok () τ₂ ∧
      τ'.database = τ₂.database := by
  have hreliable : (Migrator.mk backend false).backend.Reliable effect view := h
  obtain ⟨⟨⟩, τ₁, hinit, hok⟩ := bind_eq_ok.mp hok
  obtain ⟨contents, hcreate, hview⟩ := init_ok hreliable rfl hinit
  obtain ⟨⟨⟩, τ₂, hannounce, hok⟩ := bind_eq_ok.mp hok
  obtain ⟨-, rfl⟩ := pure_eq_ok.mp hannounce
  obtain ⟨found, τ₃, hanswer, hok⟩ := bind_eq_ok.mp hok
  obtain ⟨hfound, rfl⟩ := Run.ofExcept_eq_ok.mp hanswer
  obtain rfl := Except.ok.inj (hread.symm.trans hfound)
  obtain ⟨plan, τ₄, hplan, hcarried, rfl | ⟨text, rfl⟩⟩ := migrate_eq_ok hok
  · exact ⟨plan, τ₁, τ', contents, hplan, hcreate, hview, hcarried, rfl⟩
  · exact ⟨plan, τ₁, τ₄, contents, hplan, hcreate, hview, hcarried, rfl⟩

/-- A message is no plain output. -/
theorem printed_push (level : Level) (text : String) (details : List (String × String)) :
    { τ with lines := τ.lines.push (.message level text details) }.printed = τ.printed := by
  unfold Transcript.printed
  rw [Array.toList_push, List.filterMap_append]
  exact List.append_nil _

def announced (τ : Transcript σ) : Transcript σ where
  database := τ.database
  lines := τ.lines.push
    (.message .info "Dry run mode - SQL will be printed but not executed." [])

theorem printed_announced : (announced τ).printed = τ.printed := printed_push _ _ _

/-- What the command line does when asked for a dry run, once the migrations have been read. -/
theorem dry_run_eq (hread : store.readAll tree = .ok migrations) :
    Program.migrate store tree app? target? { backend, dryRun := true } τ
      = Plan.migrate { backend, dryRun := true } migrations app? target? (announced τ) := by
  unfold Program.migrate
  rw [hread]
  rfl

/-- A dry run that goes through has carried out the plan. -/
theorem carryOut_of_dry_run (hread : store.readAll tree = .ok migrations)
    (hplan : IsPlan (.ofList migrations) app? target? plan)
    (hok : Program.migrate store tree app? target? { backend, dryRun := true } τ = .ok () τ') :
    ∃ τ₁, carryOut { backend, dryRun := true } (.ofList migrations) (runs plan) (announced τ)
      = .ok () τ₁ ∧ τ'.database = τ₁.database ∧ τ'.printed = τ₁.printed := by
  rw [dry_run_eq hread] at hok
  obtain ⟨same, τ₁, hsame, hcarried, hlines⟩ := migrate_eq_ok hok
  obtain rfl := Except.ok.inj ((choose_eq_ok.mpr hsame).symm.trans (choose_eq_ok.mpr hplan))
  refine ⟨τ₁, hcarried, ?_⟩
  rcases hlines with rfl | ⟨text, rfl⟩
  · exact ⟨rfl, rfl⟩
  · exact ⟨rfl, printed_push _ _ _⟩

end Command

/-- Let migrating go through: it creates the ledger, executes the scripts of the migrations of the
plan that are not recorded and records these. Its dry run goes through exactly if what they need of
other apps is recorded at the beginning, and then it changes nothing. If the plan also leaves each
app for good, it prints the statements of these scripts, each of them once and in the order of the
plan. -/
theorem dry_run_shows {backend : Backend σ} (h : backend.Reliable effect view)
    (htells : backend.TellsLedger view)
    (hdialect : Dialect.byName? backend.dialect.name = some backend.dialect)
    {store : MigrationStore} {tree : FileTree} {migrations : List Migration}
    (hread : store.readAll tree = .ok migrations) {app? target? : Option String}
    (hclosed : (view τ.database).saved = none)
    (hok : Program.migrate store tree app? target? { backend } τ = .ok () τ') :
    let graph := DependencyGraph.ofList migrations
    let ledger := (view τ.database).ledger
    let dryRun := Program.migrate store tree app? target? { backend, dryRun := true } τ
    ∃ plan scripts, IsPlan graph app? target? plan ∧
      List.Forall₂ (HasScript backend.dialect backend.now graph) (Ledger.unrecorded ledger plan)
        scripts ∧
      Backend.Reliable.effects effect (.create Ledger.model true :: scripts.flatten)
        (view τ.database).contents = some (view τ'.database).contents ∧
      (∃ entries, List.Forall₂ (fun migration entry =>
          Ledger.Records migration.app migration.name migration.number entry)
          (Ledger.unrecorded ledger plan) entries ∧
        (view τ'.database).ledger = ledger ++ entries) ∧
      ((∃ τ₁, dryRun = .ok () τ₁) ↔ Foreseen ledger plan) ∧
      ∀ τ₁, dryRun = .ok () τ₁ → view τ₁.database = view τ.database ∧
        (LeavesForGood ledger plan →
          τ₁.printed = τ.printed ++ scripts.flatten.map (·.line backend.dialect)) := by
  intro graph ledger dryRun
  have hreliable : (Migrator.mk backend false).backend.Reliable effect view := h
  have hreliable' : (Migrator.mk backend true).backend.Reliable effect view := h
  have hgraph : DependencyGraph.InOrder graph.migrations := DependencyGraph.inOrder_ofList
  have htold := MigrationStore.toldApart_of_readAll hread
  have htold : ToldApart graph.migrations :=
    htold.of_perm (DependencyGraph.perm_ofList htold.keys)
  obtain ⟨plan, τ₁, τ₂, contents, hplan, hcreate, hview, hcarried, hdatabase⟩ :=
    carryOut_of_migrate h hread hok
  obtain ⟨ordered, horder⟩ := hplan.exists_order
  have hunderway : Underway graph [] plan ledger := .start hgraph htold horder hplan
  have hledger : (view τ₁.database).ledger = ledger := by rw [hview]
  have hadvanced := carryOut_ok hreliable rfl (Dialect.transactional_of_byName? hdialect)
    (by rw [hview]; exact hclosed) (hledger.symm ▸ hunderway) hcarried
  rw [hledger, ← hdatabase] at hadvanced
  obtain ⟨scripts, hall, heffects⟩ := hadvanced.contents.exists_scripts
  have hshows := fun hforeseen => shows_carryOut hreliable' rfl htells hgraph htold
    hunderway.feasible hdialect hunderway.complete hforeseen hadvanced.contents.exists_script
    (List.nil_append plan).symm (replays_of_carryOut hgraph htold hcarried)
  have hforeseen_of : ∀ τ₃, dryRun = .ok () τ₃ → Foreseen ledger plan := by
    intro τ₃ hrun
    obtain ⟨τ₄, hcarried', -⟩ := carryOut_of_dry_run hread hplan hrun
    have hforeseen : Foreseen (view (announced τ).database).ledger plan :=
      foreseen_of_carryOut hreliable' rfl htells hgraph htold hunderway.feasible hcarried'
    exact hforeseen
  refine ⟨plan, scripts, hplan, hall, ?_, ?_, ⟨fun ⟨τ₃, hrun⟩ => hforeseen_of τ₃ hrun, ?_⟩, ?_⟩
  · unfold Backend.Reliable.effects at heffects ⊢
    rw [List.foldlM_cons, hcreate]
    rw [hview] at heffects
    exact heffects
  · have hrecords := hadvanced.ledger
    rw [hledger] at hrecords
    exact hrecords
  · intro hforeseen
    obtain ⟨printed, hshown, -⟩ := hshows hforeseen
    obtain ⟨τ₃, hcarried', -⟩ := hshown (announced τ) rfl
    obtain ⟨τ₄, hrun⟩ := exists_migrate hplan hcarried'
    exact ⟨τ₄, (dry_run_eq hread).trans hrun⟩
  · intro τ₃ hrun
    obtain ⟨τ₄, hcarried', hdatabase', hprinted⟩ := carryOut_of_dry_run hread hplan hrun
    obtain ⟨printed, hshown, hscripts⟩ := hshows (hforeseen_of τ₃ hrun)
    have hbegins : view (announced τ).database = view τ.database := rfl
    obtain ⟨-, hview', hlines⟩ := hshown.of_ok hbegins hcarried'
    refine ⟨by rw [hdatabase', hview'], fun hleaves => ?_⟩
    -- a migration has one script, so what is printed is what is executed
    have hunique : Relator.RightUnique (HasScript backend.dialect backend.now graph) :=
      fun migration statements other hscript hscript' =>
        hscript.unique (hgraph.nodup_keys.of_map.filter _) hscript'
    obtain rfl := List.right_unique_forall₂' hunique (hscripts hleaves nofun) hall
    rw [hprinted, hlines, printed_announced]

/-! ### Two apps that need each other's migrations -/

open MigrationStore

theorem tellsLedger_writer : writer.TellsLedger Store.view := by
  intro app s e t hrefused
  cases hrefused

/-- A database that keeps what it is asked to run keeps a script as it stands. -/
theorem effects_written (script written : List Statement) :
    Backend.Reliable.effects (fun statement written => some (written ++ [statement])) script written
      = some (written ++ script) := by
  induction script generalizing written with
  | nil => exact congrArg some (List.append_nil written).symm
  | cons statement rest ih =>
      rw [List.append_cons]
      exact ih (written ++ [statement])

/-- With a plan at hand the request on the two apps is its three steps. -/
theorem migrate_twoApps {app? target? : Option String}
    (hplan : IsPlan ⟨twoApps⟩ app? target? plan) (hsome : plan.isEmpty = false) :
    Program.migrate shelf twoAppTree app? target? migrator = (do
      migrator.init
      Program.announceDryRun migrator.dryRun
      carryOut migrator ⟨twoApps⟩ (runs plan)) := by
  unfold Program.migrate Plan.migrate
  rw [readAll_twoApps]
  simp only [Run.ofExcept_ok_bind, graph_twoApps, choose_eq_ok.mpr hplan, hsome,
    Bool.false_eq_true, if_false]

theorem isPlan_auth : IsPlan ⟨twoApps⟩ (some "auth") none [pageMigration, userMigration] := by
  have hreach : (DependencyGraph.mk twoApps).reach [] [⟨"auth", "0001_initial"⟩]
      = .ok [⟨"main", "0001_initial"⟩, ⟨"auth", "0001_initial"⟩] := by
    cbv
  exact .ofApp (by decide)
    (Except.bind_eq_ok.mpr ⟨_, hreach, Except.bind_eq_ok.mpr ⟨_, order_twoApps, rfl⟩⟩)

theorem exists_migrate_auth : ∃ τ, Program.migrate shelf twoAppTree (some "auth") none
    { backend := writer } pagesThere = .ok () τ := by
  have hruns : carryOut (Migrator.mk writer false) ⟨twoApps⟩ (runs [pageMigration, userMigration])
      = (do
        (do let _ ← Migrator.apply { backend := writer } "main" [pageMigration, postMigration]
              (some "0001_initial"))
        (do let _ ← Migrator.apply { backend := writer } "auth" [userMigration]
              (some "0001_initial"))
        pure ()) := rfl
  have hok : (match Program.migrate shelf twoAppTree (some "auth") none
      { backend := writer } pagesThere with
      | .ok _ _ => true
      | .error .. => false) = true := by
    rw [migrate_twoApps isPlan_auth rfl, hruns]
    unfold Migrator.apply
    rw [sorted_auth, sorted_main]
    decide +kernel
  split at hok
  · next τ heq => exact ⟨τ, heq⟩
  · cases hok

/-- The users are asked for, and the pages are there. What the dry run prints is what is
executed. -/
theorem users_shown : ∃ τ τ₁ statements,
    Program.migrate shelf twoAppTree (some "auth") none { backend := writer } pagesThere
      = .ok () τ ∧
    HasScript .sqlite Operation.noteMoment ⟨twoApps⟩ userMigration statements ∧
    τ.database.view.contents = .create Ledger.model true :: statements ∧
    Program.migrate shelf twoAppTree (some "auth") none { backend := writer, dryRun := true }
      pagesThere = .ok () τ₁ ∧
    τ₁.printed = statements.map (·.line .sqlite) := by
  obtain ⟨τ, hok⟩ := exists_migrate_auth
  have hreliable : writer.Reliable (fun statement written => some (written ++ [statement]))
      Store.view := Store.reliable _ _ _ _
  have hclosed : (Store.view pagesThere.database).saved = none := rfl
  obtain ⟨plan, scripts, hplan, hall, heffects, -, hgoes, hprinted⟩ :=
    dry_run_shows hreliable tellsLedger_writer rfl readAll_twoApps hclosed hok
  obtain rfl := Except.ok.inj ((choose_eq_ok.mpr hplan).symm.trans (choose_eq_ok.mpr isPlan_auth))
  have hleft : Ledger.unrecorded (Store.view pagesThere.database).ledger
      [pageMigration, userMigration] = [userMigration] := rfl
  rw [hleft] at hall
  obtain ⟨statements, scripts, hscript, hnil, rfl⟩ := List.forall₂_cons_left_iff.mp hall
  obtain rfl := List.forall₂_nil_left_iff.mp hnil
  have hforeseen : Foreseen (Store.view pagesThere.database).ledger
      [pageMigration, userMigration] := by
    unfold Foreseen
    rw [hleft]
    decide
  have hleaves : LeavesForGood (Store.view pagesThere.database).ledger
      [pageMigration, userMigration] := by
    intro placed migration between other rest hsplit
    have hlength := congrArg List.length hsplit
    simp only [List.length_append, List.length_cons, List.length_nil] at hlength
    obtain rfl : rest = [] := List.length_eq_zero_iff.mp (by omega)
    exact fun _ _ => nofun
  obtain ⟨τ₁, hdry⟩ := hgoes.mpr hforeseen
  refine ⟨τ, τ₁, statements, hok, hscript, ?_, hdry, ?_⟩
  · rw [effects_written, List.flatten_cons, List.flatten_nil, List.append_nil] at heffects
    exact (Option.some.inj heffects).symm
  · rw [(hprinted τ₁ hdry).2 hleaves, List.flatten_cons, List.flatten_nil, List.append_nil]
    rfl

theorem isPlan_all : IsPlan ⟨twoApps⟩ none none [pageMigration, userMigration, postMigration] :=
  .all none order_twoApps

def nothingThere : Transcript (Store (List Statement)) := ⟨⟨⟨[], [], none, 0⟩, 0⟩, #[]⟩

/-- Migrating both apps goes through where nothing is there. Its dry run does not: the pages are not
recorded when it comes to the users. -/
theorem users_not_foreseen :
    (∃ τ, Program.migrate shelf twoAppTree none none { backend := writer } nothingThere
      = .ok () τ) ∧
    ∃ τ, Program.migrate shelf twoAppTree none none { backend := writer, dryRun := true }
      nothingThere = .error (.missingDependency "auth" "0001_initial" "main" "0001_initial") τ := by
  have hruns : ∀ dryRun, carryOut (Migrator.mk writer dryRun) ⟨twoApps⟩
      (runs [pageMigration, userMigration, postMigration]) = (do
        (do let _ ← Migrator.apply ⟨writer, dryRun⟩ "main" [pageMigration, postMigration]
              (some "0001_initial"))
        (do let _ ← Migrator.apply ⟨writer, dryRun⟩ "auth" [userMigration] (some "0001_initial"))
        (do let _ ← Migrator.apply ⟨writer, dryRun⟩ "main" [pageMigration, postMigration]
              (some "0002_posts"))
        pure ()) := fun _ => rfl
  have hok : (match Program.migrate shelf twoAppTree none none { backend := writer }
      nothingThere with
      | .ok _ _ => true
      | .error .. => false) = true := by
    rw [migrate_twoApps isPlan_all rfl, hruns]
    unfold Migrator.apply
    rw [sorted_auth, sorted_main]
    decide +kernel
  have hfails : (match Program.migrate shelf twoAppTree none none
      { backend := writer, dryRun := true } nothingThere with
      | .ok _ _ => none
      | .error e _ => some e)
        = some (.missingDependency "auth" "0001_initial" "main" "0001_initial") := by
    rw [migrate_twoApps isPlan_all rfl, hruns]
    unfold Migrator.apply
    rw [sorted_auth, sorted_main]
    decide +kernel
  split at hok
  · next τ heq =>
      refine ⟨⟨τ, heq⟩, ?_⟩
      split at hfails
      · cases hfails
      · next e τ₁ heq' => exact ⟨τ₁, heq'.trans (by rw [Option.some.inj hfails])⟩
  · cases hok

end SchemaHistory.Plan
