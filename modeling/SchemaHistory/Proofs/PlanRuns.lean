import SchemaHistory.Proofs.Plans
import SchemaHistory.Proofs.Requirements
import SchemaHistory.Proofs.StoreContents

/-!
# Carrying out a plan

A plan is carried out run by run, and every run is given all migrations of its app and the last one
that it is about. What a run applies is the stretch of the plan that it stands for, less what is
recorded (`DependencyGraph.Stretch.pending_eq`): what is before that stretch in the app stands
before it in the plan too, so it has been applied by then. Whatever a migration in the stretch comes
after has been applied for the same reason, so no dependency is missing
(`DependencyGraph.Stretch.supplied`).
-/

namespace SchemaHistory

/-! ### What has been applied -/

section Progress

variable {κ : Type} {effect : Statement → κ → Option κ}
  {hasScript hasScript' : Migration → List Statement → Prop} {c d contents : κ}
  {before between after : View κ} {applied later : List Migration}

theorem Migration.Carried.imp (h : Migration.Carried effect hasScript applied c d)
    (himp : ∀ migration ∈ applied, ∀ statements, hasScript migration statements →
      hasScript' migration statements) : Migration.Carried effect hasScript' applied c d := by
  induction h with
  | nil c => exact .nil c
  | cons hscript heffects _ ih =>
      obtain ⟨hmigration, hrest⟩ := List.forall_mem_cons.mp himp
      exact .cons (hmigration _ hscript) heffects (ih hrest)

/-- Migrations carried out after others, seen as one run. -/
theorem Migration.Carried.append (h : Migration.Carried effect hasScript applied c contents)
    (hlater : Migration.Carried effect hasScript later contents d) :
    Migration.Carried effect hasScript (applied ++ later) c d := by
  induction h with
  | nil c => exact hlater
  | cons hscript heffects _ ih => exact .cons hscript heffects (ih hlater)

theorem Migration.Carried.exists_script (h : Migration.Carried effect hasScript applied c d) :
    ∀ migration ∈ applied, ∃ statements, hasScript migration statements := by
  induction h with
  | nil c => exact nofun
  | cons hscript _ _ ih => exact List.forall_mem_cons.mpr ⟨⟨_, hscript⟩, ih⟩

/-- What migrations do is what their statements do, one after the other. -/
theorem Migration.Carried.exists_scripts (h : Migration.Carried effect hasScript applied c d) :
    ∃ scripts, List.Forall₂ hasScript applied scripts ∧
      Backend.Reliable.effects effect scripts.flatten c = some d := by
  induction h with
  | nil c => exact ⟨[], .nil, rfl⟩
  | @cons migration rest statements c contents d hscript heffects _ ih =>
      obtain ⟨scripts, hall, hrest⟩ := ih
      refine ⟨statements :: scripts, .cons hscript hall, ?_⟩
      unfold Backend.Reliable.effects at heffects hrest ⊢
      rw [List.flatten_cons, List.foldlM_append, heffects]
      exact hrest

namespace View.Advanced

theorem imp (h : View.Advanced effect hasScript applied before after)
    (himp : ∀ migration ∈ applied, ∀ statements, hasScript migration statements →
      hasScript' migration statements) :
    View.Advanced effect hasScript' applied before after :=
  ⟨h.contents.imp himp, h.ledger, h.saved, h.commits⟩

theorem append (h : View.Advanced effect hasScript applied before between)
    (hlater : View.Advanced effect hasScript later between after) :
    View.Advanced effect hasScript (applied ++ later) before after := by
  obtain ⟨entries, hentries, hledger⟩ := h.ledger
  obtain ⟨entries', hentries', hledger'⟩ := hlater.ledger
  refine ⟨h.contents.append hlater.contents,
    ⟨entries ++ entries', List.rel_append hentries hentries', ?_⟩, hlater.saved, ?_⟩
  · rw [hledger', hledger, List.append_assoc]
  · rw [hlater.commits, h.commits, List.length_append, Nat.add_assoc]

/-- What is recorded afterwards was so before, or has been applied. -/
theorem any_isFor (h : View.Advanced effect hasScript applied before after) {app name : String} :
    after.ledger.any (·.isFor app name) = true ↔ before.ledger.any (·.isFor app name) = true ∨
      ∃ migration ∈ applied, (migration.app, migration.name) = (app, name) := by
  obtain ⟨entries, hentries, hledger⟩ := h.ledger
  rw [hledger, List.any_append, Bool.or_eq_true]
  refine or_congr_right ?_
  clear h hledger
  induction hentries with
  | nil => simp
  | @cons migration entry applied entries hrecords _ ih =>
      obtain ⟨happ, hname, -⟩ := hrecords
      rw [List.any_cons, Bool.or_eq_true, ih]
      simp [LedgerEntry.isFor, happ, hname]

end View.Advanced

end Progress

/-! ### What is left to apply -/

namespace Ledger

/-- The migrations that have no row. -/
def unrecorded (ledger : List LedgerEntry) (plan : List Migration) : List Migration :=
  plan.filter fun migration => !ledger.any (·.isFor migration.app migration.name)

variable {ledger : List LedgerEntry} {plan : List Migration} {migration : Migration}

/-- A migration of the plan is left to carry out exactly if the ledger lacks it. -/
theorem mem_unrecorded : migration ∈ unrecorded ledger plan ↔
    migration ∈ plan ∧ ¬ledger.any (·.isFor migration.app migration.name) = true := by
  rw [unrecorded, List.mem_filter, Bool.not_eq_true']
  simp only [Bool.not_eq_true]

/-- One of an app is pending exactly if it is within the target and not recorded. -/
theorem mem_pending {app : String} {target : Option String} {ordered : List Migration} :
    migration ∈ pending ledger app target ordered ↔
      (migration ∈ ordered ∧
        Migrator.isWithin (target.map Migrator.numberOfTarget) migration = true) ∧
      ¬ledger.any (·.isFor app migration.name) = true := by
  rw [pending, List.mem_filter, List.mem_filter, Bool.not_eq_true']
  simp only [Bool.not_eq_true]

/-- What is left of two plans is what is left of either. -/
theorem unrecorded_append (more : List Migration) :
    unrecorded ledger (plan ++ more) = unrecorded ledger plan ++ unrecorded ledger more :=
  List.filter_append ..

end Ledger

/-! ### One run -/

namespace DependencyGraph

open Migration

variable {graph : DependencyGraph} {app : String} {placed front rest : List Migration}
  {last migration : Migration} {ledger : List LedgerEntry}

/-- The migrations of an app stand in the graph in their own order. -/
theorem inOrder_ofApp (horder : InOrder graph.migrations) (htold : ToldApart graph.migrations) :
    Migration.InOrder app (graph.ofApp app) (graph.ofApp app) where
  perm := .refl _
  ascending := ascending_ofApp horder
  app_eq _ hmem := (mem_ofApp.mp hmem).2
  numbered migration hmem := htold.numbered migration (mem_ofApp.mp hmem).1

/-- A stretch of a plan for which one run stands: migrations of one app, up to the one that the run
names. -/
structure Stretch (graph : DependencyGraph) (placed front : List Migration) (last : Migration)
    (rest : List Migration) : Prop where
  inOrder : InOrder graph.migrations
  toldApart : ToldApart graph.migrations
  feasible : Feasible graph.migrations (placed ++ (front ++ [last]) ++ rest)
  app_eq : ∀ migration ∈ front, migration.app = last.app

namespace Stretch

theorem app_of_mem (h : Stretch graph placed front last rest)
    (hmem : migration ∈ front ++ [last]) : migration.app = last.app := by
  rcases List.mem_append.mp hmem with hmem | hmem
  · exact h.app_eq migration hmem
  · rw [List.mem_singleton.mp hmem]

theorem mem_graph (h : Stretch graph placed front last rest)
    (hmem : migration ∈ front ++ [last]) : migration ∈ graph.migrations :=
  h.feasible.subset (List.mem_append_left _ (List.mem_append_right _ hmem))

/-- Within a stretch the names ascend. -/
theorem ascending (h : Stretch graph placed front last rest) :
    (front ++ [last]).Pairwise (·.name < ·.name) := by
  refine (h.feasible.of_append.pairwise h.toldApart.keys).imp_of_mem fun ha hb hlt => hlt ?_
  rw [h.app_of_mem ha, h.app_of_mem hb]

/-- Whether a migration of the app is within the target of the run. -/
theorem isWithin_iff (h : Stretch graph placed front last rest) :
    Migrator.isWithin ((some last.name).map Migrator.numberOfTarget) migration = true ↔
      ¬last.number < migration.number := by
  have hlast : last.Numbered :=
    h.toldApart.numbered last (h.mem_graph (List.mem_append_right _ (List.mem_singleton_self _)))
  rw [Option.map_some, Migrator.numberOfTarget_name hlast, Migrator.isWithin, Bool.not_eq_true',
    decide_eq_false_iff_not]

/-- A stretch has no migration above its last one. -/
theorem isWithin_of_mem (h : Stretch graph placed front last rest)
    (hmem : migration ∈ front ++ [last]) : ¬last.number < migration.number := by
  rcases List.mem_append.mp hmem with hbefore | hlast
  · have hlt : migration.name < last.name :=
      (List.pairwise_append.mp h.ascending).2.2 migration hbefore last (List.mem_singleton_self _)
    have hlast := h.mem_graph (List.mem_append_right _ (List.mem_singleton_self _))
    exact number_le (h.toldApart.numbered migration (h.mem_graph hmem))
      (h.toldApart.numbered last hlast) hlt
  · rw [List.mem_singleton.mp hlast]
    exact lt_irrefl _

/-- The migrations of the app that are within the target have been placed, in the stretch or before
it. -/
theorem mem_of_isWithin (h : Stretch graph placed front last rest)
    (hmem : migration ∈ graph.ofApp last.app) (hwithin : ¬last.number < migration.number) :
    migration ∈ placed ++ (front ++ [last]) := by
  obtain ⟨hmem, happ⟩ := mem_ofApp.mp hmem
  have hlast := h.mem_graph (List.mem_append_right _ (List.mem_singleton_self _))
  have hfeasible := h.feasible
  rw [← List.append_assoc, List.append_assoc, List.singleton_append] at hfeasible
  rw [← List.append_assoc]
  rcases lt_trichotomy migration.name last.name with hlt | heq | hgt
  · exact List.mem_append_left _ (hfeasible.earlier_mem h.toldApart.keys hmem happ hlt)
  · have hsame : migration = last := by
      refine h.inOrder.eq_of_key_eq hmem hlast ?_
      rw [key, key, happ, heq]
    rw [hsame]
    exact List.mem_append_right _ (List.mem_singleton_self _)
  · -- a later name has a later number, as numbers differ
    have hle := number_le (h.toldApart.numbered last hlast)
      (h.toldApart.numbered migration hmem) hgt
    have hnumber : migration.number = last.number :=
      le_antisymm (not_lt.mp hwithin) (not_lt.mp hle)
    rw [h.toldApart.eq_of_number_eq migration hmem last hlast happ hnumber] at hgt
    exact absurd hgt (lt_irrefl _)

/-- What the run applies is the stretch, less what is recorded, if what is placed of its app is
recorded. -/
theorem pending_eq (h : Stretch graph placed front last rest)
    (hplaced : ∀ migration ∈ placed, migration.app = last.app →
      ledger.any (·.isFor migration.app migration.name) = true) :
    Ledger.pending ledger last.app (some last.name) (graph.ofApp last.app)
      = Ledger.unrecorded ledger (front ++ [last]) := by
  have hofApp : (graph.ofApp last.app).Pairwise (·.name < ·.name) := ascending_ofApp h.inOrder
  have hpending := (hofApp.filter
    (Migrator.isWithin ((some last.name).map Migrator.numberOfTarget))).filter
      fun migration => !ledger.any (·.isFor last.app migration.name)
  have hunrecorded := h.ascending.filter
    fun migration => !ledger.any (·.isFor migration.app migration.name)
  -- both lists ascend, so they are equal if they have the same members
  refine List.Perm.eq_of_pairwise (fun a b _ _ hab hba => absurd hba (lt_asymm hab)) hpending
    hunrecorded ((List.perm_ext_iff_of_nodup ?_ ?_).mpr fun migration => ?_)
  · exact hpending.imp fun hlt => ne_of_apply_ne _ (ne_of_lt hlt)
  · exact hunrecorded.imp fun hlt => ne_of_apply_ne _ (ne_of_lt hlt)
  · rw [Ledger.mem_pending, h.isWithin_iff, Ledger.mem_unrecorded]
    constructor
    · rintro ⟨⟨hmem, hwithin⟩, hnew⟩
      rw [← (mem_ofApp.mp hmem).2] at hnew
      refine ⟨?_, hnew⟩
      rcases List.mem_append.mp (h.mem_of_isWithin hmem hwithin) with hin | hin
      · exact absurd (hplaced migration hin (mem_ofApp.mp hmem).2) hnew
      · exact hin
    · rintro ⟨hmem, hnew⟩
      rw [h.app_of_mem hmem] at hnew
      exact ⟨⟨mem_ofApp.mpr ⟨h.mem_graph hmem, h.app_of_mem hmem⟩, h.isWithin_of_mem hmem⟩, hnew⟩

/-- What the migrations of the stretch depend on is recorded, or is in the stretch before them. -/
theorem supplied (h : Stretch graph placed front last rest)
    (hcomplete : ∀ migration ∈ graph.migrations, ∀ dependency,
      ¬migration.Lacks graph.migrations dependency)
    (hplaced : ∀ migration ∈ placed, ledger.any (·.isFor migration.app migration.name) = true) :
    Ledger.Supplied ledger (Ledger.unrecorded ledger (front ++ [last])) := by
  intro migration hmem dependency hdependency
  obtain ⟨hin, -⟩ := Ledger.mem_unrecorded.mp hmem
  obtain ⟨earlier, hearlier, rfl, hlt⟩ := h.feasible.of_append.exists_dependency h.toldApart.keys
    hcomplete (List.mem_append_right _ hin) hdependency
  by_cases hthere : ledger.any (·.isFor earlier.app earlier.name) = true
  · exact Or.inl hthere
  · rcases List.mem_append.mp hearlier with hearly | hstretch
    · exact absurd (hplaced earlier hearly) hthere
    · refine Or.inr ⟨earlier, Ledger.mem_unrecorded.mpr ⟨hstretch, hthere⟩, rfl, hlt ?_⟩
      rw [h.app_of_mem hstretch, h.app_of_mem hin]

variable {κ : Type} {effect : Statement → κ → Option κ}
  {hasScript : Migration → List Statement → Prop} {before after : View κ}

/-- When the run is done, everything up to the end of the stretch is recorded. -/
theorem recorded_after (_h : Stretch graph placed front last rest)
    (hplaced : ∀ migration ∈ placed,
      before.ledger.any (·.isFor migration.app migration.name) = true)
    (hadvanced : View.Advanced effect hasScript (Ledger.unrecorded before.ledger (front ++ [last]))
      before after) :
    ∀ migration ∈ placed ++ (front ++ [last]),
      after.ledger.any (·.isFor migration.app migration.name) = true := by
  intro migration hmem
  rw [hadvanced.any_isFor]
  by_cases hthere : before.ledger.any (·.isFor migration.app migration.name) = true
  · exact Or.inl hthere
  · rcases List.mem_append.mp hmem with hmem | hmem
    · exact Or.inl (hplaced migration hmem)
    · exact Or.inr ⟨migration, Ledger.mem_unrecorded.mpr ⟨hmem, hthere⟩, rfl⟩

/-- The run has recorded nothing of the rest of the plan. -/
theorem unrecorded_after (h : Stretch graph placed front last rest)
    (hadvanced : View.Advanced effect hasScript (Ledger.unrecorded before.ledger (front ++ [last]))
      before after) :
    Ledger.unrecorded after.ledger rest = Ledger.unrecorded before.ledger rest := by
  refine List.filter_congr fun migration hmem => congrArg not (Bool.eq_iff_iff.mpr ?_)
  rw [hadvanced.any_isFor, or_iff_left_iff_imp]
  rintro ⟨applied, happlied, hkey⟩
  obtain ⟨hin, -⟩ := Ledger.mem_unrecorded.mp happlied
  obtain ⟨happ, hname⟩ := Prod.mk.inj hkey
  -- a plan has each migration once
  have hsame : applied = migration := by
    refine h.inOrder.eq_of_key_eq (h.mem_graph hin)
      (h.feasible.subset (List.mem_append_right _ hmem)) ?_
    rw [key, key, happ, hname]
  have hapart := (List.nodup_append.mp h.feasible.nodup).2.2
  exact absurd hsame (hapart applied (List.mem_append_right _ hin) migration hmem)

end Stretch

end DependencyGraph

/-! ### Run after run -/

namespace Plan

open Migration

variable {σ κ : Type} {migrator : Migrator σ} {effect : Statement → κ → Option κ}
  {view : σ → View κ} {τ τ' : Transcript σ} {e : MigrationError} {graph : DependencyGraph}
  {placed rest : List Migration}

/-- The statements of a migration of a graph, after all before it in its app have been applied. -/
def HasScript (dialect : Dialect) (now : DateTime) (graph : DependencyGraph)
    (migration : Migration) (statements : List Statement) : Prop :=
  migration.HasScript dialect now migration.app false (graph.ofApp migration.app) statements

/-- Where a plan is to be carried out: some migrations of it are placed and recorded, the others
follow. -/
structure Underway (graph : DependencyGraph) (placed rest : List Migration)
    (ledger : List LedgerEntry) : Prop where
  inOrder : DependencyGraph.InOrder graph.migrations
  toldApart : ToldApart graph.migrations
  complete : ∀ migration ∈ graph.migrations, ∀ dependency,
    ¬migration.Lacks graph.migrations dependency
  feasible : Feasible graph.migrations (placed ++ rest)
  recorded : ∀ migration ∈ placed, ledger.any (·.isFor migration.app migration.name) = true

/-- A plan for the migrations of a graph that has an order, at its beginning. -/
theorem Underway.start {app? target? : Option String} {ordered plan : List Migration}
    {ledger : List LedgerEntry} (hgraph : DependencyGraph.InOrder graph.migrations)
    (htold : ToldApart graph.migrations) (horder : graph.order = .ok ordered)
    (hplan : IsPlan graph app? target? plan) : Underway graph [] plan ledger where
  inOrder := hgraph
  toldApart := htold
  complete := by
    rcases DependencyGraph.order_cases hgraph with ⟨_, -, _, -, herror⟩ | ⟨hcomplete, -⟩
    · rw [horder] at herror
      cases herror
    · exact hcomplete
  feasible := hplan.feasible hgraph
  recorded := nofun

/-- The next migrations of one app on the way are a stretch. -/
theorem Underway.stretch {ledger : List LedgerEntry} {front : List Migration} {last : Migration}
    (h : Underway graph placed (front ++ last :: rest) ledger)
    (hfront : ∀ migration ∈ front, migration.app = last.app) :
    graph.Stretch placed front last rest where
  inOrder := h.inOrder
  toldApart := h.toldApart
  feasible := by
    have hfeasible := h.feasible
    rw [List.append_cons, ← List.append_assoc] at hfeasible
    exact hfeasible
  app_eq := hfront

/-- When a run is done, the plan is underway from its end on. -/
theorem Underway.next {hasScript : Migration → List Statement → Prop} {before after : View κ}
    {front : List Migration} {last : Migration}
    (h : Underway graph placed (front ++ last :: rest) before.ledger)
    (hfront : ∀ migration ∈ front, migration.app = last.app)
    (hadvanced : View.Advanced effect hasScript (Ledger.unrecorded before.ledger (front ++ [last]))
      before after) :
    Underway graph (placed ++ (front ++ [last])) rest after.ledger :=
  ⟨h.inOrder, h.toldApart, h.complete, (h.stretch hfront).feasible,
    (h.stretch hfront).recorded_after h.recorded hadvanced⟩

section Carry

variable (h : migrator.backend.Reliable effect view) (hdry : migrator.dryRun = false)
  (htransactional : migrator.backend.dialect.capabilities.transactional = true)
  (hclosed : (view τ.database).saved = none)

include h hdry htransactional hclosed

/-- What a run that succeeds has applied. -/
theorem advanced_of_run {front : List Migration} {last : Migration} {names : List String}
    (hunderway : Underway graph placed (front ++ last :: rest) (view τ.database).ledger)
    (hfront : ∀ migration ∈ front, migration.app = last.app)
    (hok : migrator.apply last.app (graph.ofApp last.app) (some last.name) τ = .ok names τ') :
    View.Advanced effect (HasScript migrator.backend.dialect migrator.backend.now graph)
      (Ledger.unrecorded (view τ.database).ledger (front ++ [last])) (view τ.database)
      (view τ'.database) := by
  have hstretch := hunderway.stretch hfront
  have horder : Migration.InOrder last.app (graph.ofApp last.app) (graph.ofApp last.app) :=
    DependencyGraph.inOrder_ofApp hstretch.inOrder hstretch.toldApart
  obtain ⟨hadvanced, -⟩ := Migrator.apply_ok h hdry htransactional horder hclosed hok
  rw [hstretch.pending_eq fun migration hmem _ => hunderway.recorded migration hmem] at hadvanced
  refine hadvanced.imp fun migration hmem statements hscript => ?_
  rw [HasScript, hstretch.app_of_mem (Ledger.mem_unrecorded.mp hmem).1]
  exact hscript

/-- A run that fails has applied some of the first migrations of its stretch, and has not failed for
a missing dependency. -/
theorem advanced_of_run_error {front : List Migration} {last : Migration}
    (hunderway : Underway graph placed (front ++ last :: rest) (view τ.database).ledger)
    (hfront : ∀ migration ∈ front, migration.app = last.app)
    (herror : migrator.apply last.app (graph.ofApp last.app) (some last.name) τ = .error e τ') :
    ¬e.IsMissing ∧ ∃ applied left,
      Ledger.unrecorded (view τ.database).ledger (front ++ [last]) = applied ++ left ∧
      View.Advanced effect (HasScript migrator.backend.dialect migrator.backend.now graph) applied
        (view τ.database) (view τ'.database) := by
  have hstretch := hunderway.stretch hfront
  have horder : Migration.InOrder last.app (graph.ofApp last.app) (graph.ofApp last.app) :=
    DependencyGraph.inOrder_ofApp hstretch.inOrder hstretch.toldApart
  have hpending := hstretch.pending_eq fun migration hmem _ => hunderway.recorded migration hmem
  refine ⟨Migrator.apply_supplied h hdry htransactional horder hclosed ?_ herror, ?_⟩
  · rw [hpending]
    exact hstretch.supplied hunderway.complete hunderway.recorded
  · obtain ⟨applied, left, hsplit, hadvanced, -⟩ :=
      Migrator.apply_error h hdry htransactional horder hclosed herror
    rw [hpending] at hsplit
    refine ⟨applied, left, hsplit, hadvanced.imp fun migration hmem statements hscript => ?_⟩
    have hin : migration ∈ Ledger.unrecorded (view τ.database).ledger (front ++ [last]) :=
      hsplit ▸ List.mem_append_left _ hmem
    rw [HasScript, hstretch.app_of_mem (Ledger.mem_unrecorded.mp hin).1]
    exact hscript

/-- A plan that succeeds has carried out everything in it that the ledger lacked, by induction on
its runs. -/
theorem carryOut_ok (hunderway : Underway graph placed rest (view τ.database).ledger)
    (hok : carryOut migrator graph (runs rest) τ = .ok () τ') :
    View.Advanced effect (HasScript migrator.backend.dialect migrator.backend.now graph)
      (Ledger.unrecorded (view τ.database).ledger rest) (view τ.database) (view τ'.database) := by
  generalize hruns : runs rest = todo at hok
  induction todo generalizing placed rest τ with
  | nil =>
      obtain rfl := runs_eq_nil.mp hruns
      obtain rfl := forM_nil_eq_ok.mp hok
      exact .nil hclosed
  | cons run later ih =>
      obtain ⟨front, last, back, rfl, hlater, hfront, happ, hname, -⟩ := runs_eq_cons hruns
      obtain ⟨τ₁, hrun, hok⟩ := forM_cons_eq_ok.mp hok
      obtain ⟨names, τ₂, happly, hdone⟩ := bind_eq_ok.mp hrun
      obtain ⟨-, rfl⟩ := pure_eq_ok.mp hdone
      rw [← happ] at hfront happly
      rw [← hname] at happly
      have hadvanced := advanced_of_run h hdry htransactional hclosed hunderway hfront happly
      have hrest := ih hadvanced.saved (hunderway.next hfront hadvanced) hlater hok
      rw [(hunderway.stretch hfront).unrecorded_after hadvanced] at hrest
      rw [List.append_cons, Ledger.unrecorded_append]
      exact hadvanced.append hrest

theorem carryOut_error (hunderway : Underway graph placed rest (view τ.database).ledger)
    (herror : carryOut migrator graph (runs rest) τ = .error e τ') :
    ¬e.IsMissing ∧ ∃ applied left,
      Ledger.unrecorded (view τ.database).ledger rest = applied ++ left ∧
      View.Advanced effect (HasScript migrator.backend.dialect migrator.backend.now graph) applied
        (view τ.database) (view τ'.database) := by
  generalize hruns : runs rest = todo at herror
  induction todo generalizing placed rest τ with
  | nil => exact absurd herror pure_ne_error
  | cons run later ih =>
      obtain ⟨front, last, back, rfl, hlater, hfront, happ, hname, -⟩ := runs_eq_cons hruns
      rw [List.append_cons, Ledger.unrecorded_append]
      rcases bind_eq_error.mp herror with hrun | ⟨⟨⟩, τ₁, hrun, herror⟩
      · rcases bind_eq_error.mp hrun with happly | ⟨names, τ₂, -, hdone⟩
        · rw [← happ] at hfront happly
          rw [← hname] at happly
          obtain ⟨hmissing, applied, left, hsplit, hadvanced⟩ :=
            advanced_of_run_error h hdry htransactional hclosed hunderway hfront happly
          refine ⟨hmissing, applied, left ++ Ledger.unrecorded (view τ.database).ledger back, ?_,
            hadvanced⟩
          rw [hsplit, List.append_assoc]
        · exact absurd hdone pure_ne_error
      · obtain ⟨names, τ₂, happly, hdone⟩ := bind_eq_ok.mp hrun
        obtain ⟨-, rfl⟩ := pure_eq_ok.mp hdone
        rw [← happ] at hfront happly
        rw [← hname] at happly
        have hadvanced := advanced_of_run h hdry htransactional hclosed hunderway hfront happly
        obtain ⟨hmissing, applied, left, hsplit, hrest⟩ :=
          ih hadvanced.saved (hunderway.next hfront hadvanced) hlater herror
        rw [(hunderway.stretch hfront).unrecorded_after hadvanced] at hsplit
        refine ⟨hmissing, _ ++ applied, left, ?_, hadvanced.append hrest⟩
        rw [hsplit, List.append_assoc]

end Carry

end Plan

end SchemaHistory
