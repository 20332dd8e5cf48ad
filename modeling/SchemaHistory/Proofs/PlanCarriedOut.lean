import SchemaHistory.Proofs.FaultyStore
import SchemaHistory.Proofs.NextMigration
import SchemaHistory.Proofs.PlanRuns

/-!
# A plan carried out

Migrating carries out the plan of what is asked for: it applies the migrations of the plan that are
not recorded, in the order of the plan and each as one transaction, and nothing else.

* `migrate_ok`: a request that succeeds has carried out all of them;
* `migrate_error`: one that fails has carried out those before some migration, and it does not fail
  for a missing dependency, since a plan puts dependencies first;
* `migrate_carries_out` says both of every request.

The example is a store of two apps that need each other's migrations.
-/

namespace SchemaHistory.Plan

/-! ### Requests and plans -/

variable {σ κ : Type} {backend : Backend σ} {effect : Statement → κ → Option κ} {view : σ → View κ}
  {store : MigrationStore} {tree : FileTree} {migrations ordered : List Migration}
  {τ τ' : Transcript σ} {app? target? : Option String} {e : MigrationError}

/-- A request that succeeds has carried out a plan. Where the plan is empty a line says so. -/
theorem migrate_eq_ok {migrator : Migrator σ}
    (hok : Plan.migrate migrator migrations app? target? τ = .ok () τ') :
    ∃ plan τ₁, IsPlan (.ofList migrations) app? target? plan ∧
      carryOut migrator (.ofList migrations) (runs plan) τ = .ok () τ₁ ∧
      (τ' = τ₁ ∨ ∃ text, τ' = { τ₁ with lines := τ₁.lines.push (.message .info text []) }) := by
  obtain ⟨plan, τ₁, hanswer, hok⟩ := bind_eq_ok.mp hok
  obtain ⟨hchoose, rfl⟩ := Run.ofExcept_eq_ok.mp hanswer
  refine ⟨plan, ?_⟩
  split at hok
  · next hempty =>
      cases hok
      refine ⟨τ, choose_eq_ok.mp hchoose, ?_, Or.inr ⟨_, rfl⟩⟩
      rw [List.isEmpty_iff.mp hempty]
      rfl
  · exact ⟨τ', choose_eq_ok.mp hchoose, hok, Or.inl rfl⟩

section Migrate

variable (h : backend.Reliable effect view)
  (htransactional : backend.dialect.capabilities.transactional = true)
  (hread : store.readAll tree = .ok migrations)
  (horder : (DependencyGraph.ofList migrations).order = .ok ordered)
  (hclosed : (view τ.database).saved = none)

include hread horder in
/-- A plan for the migrations of a store is ready to be carried out. -/
theorem underway_of_readAll {plan : List Migration} {ledger : List LedgerEntry}
    (hplan : IsPlan (.ofList migrations) app? target? plan) :
    Underway (.ofList migrations) [] plan ledger := by
  have htold := MigrationStore.toldApart_of_readAll hread
  exact .start DependencyGraph.inOrder_ofList
    (htold.of_perm (DependencyGraph.perm_ofList htold.keys)) horder hplan

include h htransactional hread horder hclosed

/-- Where migrating succeeds, there is a plan, and all of it has been carried out. -/
theorem migrate_ok (hok : Plan.migrate { backend } migrations app? target? τ = .ok () τ') :
    ∃ plan, IsPlan (.ofList migrations) app? target? plan ∧
      View.Advanced effect (HasScript backend.dialect backend.now (.ofList migrations))
        (Ledger.unrecorded (view τ.database).ledger plan) (view τ.database) (view τ'.database) := by
  have hreliable : (Migrator.mk backend false).backend.Reliable effect view := h
  obtain ⟨plan, τ₁, hplan, hcarried, hlines⟩ := migrate_eq_ok hok
  have hadvanced := carryOut_ok hreliable rfl htransactional hclosed
    (underway_of_readAll hread horder hplan) hcarried
  have hdatabase : τ'.database = τ₁.database := by
    rcases hlines with rfl | ⟨text, rfl⟩
    · rfl
    · rfl
  exact ⟨plan, hplan, hdatabase ▸ hadvanced⟩

/-- Where migrating fails, some of the first migrations of the plan have been carried out; or there
is no plan, and nothing is changed. -/
theorem migrate_error (herror : Plan.migrate { backend } migrations app? target? τ = .error e τ') :
    ¬e.IsMissing ∧
      ((∃ plan applied left, IsPlan (.ofList migrations) app? target? plan ∧
          Ledger.unrecorded (view τ.database).ledger plan = applied ++ left ∧
          View.Advanced effect (HasScript backend.dialect backend.now (.ofList migrations)) applied
            (view τ.database) (view τ'.database)) ∨
        (∀ plan, ¬IsPlan (.ofList migrations) app? target? plan) ∧
          view τ'.database = view τ.database) := by
  have hreliable : (Migrator.mk backend false).backend.Reliable effect view := h
  rcases bind_eq_error.mp herror with hanswer | ⟨plan, τ₁, hanswer, herror⟩
  · obtain ⟨hchoose, rfl⟩ := Run.ofExcept_eq_error.mp hanswer
    refine ⟨?_, Or.inr ⟨fun plan hplan => ?_, rfl⟩⟩
    · rcases choose_eq_error DependencyGraph.inOrder_ofList horder hchoose with
        ⟨app, rfl⟩ | ⟨app, target, rfl⟩
      · exact nofun
      · exact nofun
    · rw [choose_eq_ok.mpr hplan] at hchoose
      cases hchoose
  · obtain ⟨hchoose, rfl⟩ := Run.ofExcept_eq_ok.mp hanswer
    have hplan := choose_eq_ok.mp hchoose
    split at herror
    · cases herror
    · have hunderway : Underway (.ofList migrations) [] plan (view τ.database).ledger :=
        underway_of_readAll hread horder hplan
      obtain ⟨hmissing, applied, left, hsplit, hadvanced⟩ :=
        carryOut_error hreliable rfl htransactional hclosed hunderway herror
      exact ⟨hmissing, Or.inl ⟨plan, applied, left, hplan, hsplit, hadvanced⟩⟩

end Migrate

/-- Let the migrations of a store have an order, and a database be reliable, but refuse whatever it
likes. Migrating all apps, one app or one app up to a target carries out the plan for that, less the
migrations that are recorded: all of it, or some of the first migrations if it fails. It never fails
for a missing dependency, whatever the ledger says. Where there is no plan nothing is changed. -/
theorem migrate_carries_out (h : backend.Reliable effect view)
    (htransactional : backend.dialect.capabilities.transactional = true)
    (hread : store.readAll tree = .ok migrations)
    (horder : (DependencyGraph.ofList migrations).order = .ok ordered)
    (hclosed : (view τ.database).saved = none) (app? target? : Option String) :
    let graph := DependencyGraph.ofList migrations
    let before := view τ.database
    let hasScript := HasScript backend.dialect backend.now graph
    match Plan.migrate { backend } migrations app? target? τ with
    | .ok () τ' => ∃ plan, IsPlan graph app? target? plan ∧
        View.Advanced effect hasScript (Ledger.unrecorded before.ledger plan) before
          (view τ'.database)
    | .error e τ' => ¬e.IsMissing ∧
        ((∃ plan applied left, IsPlan graph app? target? plan ∧
            Ledger.unrecorded before.ledger plan = applied ++ left ∧
            View.Advanced effect hasScript applied before (view τ'.database)) ∨
          (∀ plan, ¬IsPlan graph app? target? plan) ∧ view τ'.database = before) := by
  intro graph before hasScript
  cases hrun : Plan.migrate { backend } migrations app? target? τ with
  | ok _ τ' => exact migrate_ok h htransactional hread horder hclosed hrun
  | error e τ' => exact migrate_error h htransactional hread horder hclosed hrun

/-! ### Two apps that need each other's migrations -/

def creating (model : String) : List Operation :=
  [.createModel model none [("id", .ofKind .auto)]]

def pageMigration : Migration where
  app := "main"
  name := "0001_initial"
  operations := creating "Page"

def userMigration : Migration where
  app := "auth"
  name := "0001_initial"
  dependencies := [("main", "0001_initial")]
  operations := creating "User"

def postMigration : Migration where
  app := "main"
  name := "0002_posts"
  dependencies := [("auth", "0001_initial")]
  operations := creating "Post"

def twoApps : List Migration := [userMigration, pageMigration, postMigration]

def twoAppTree : FileTree where
  nodes := [(["m"], .directory), (["m", "auth"], .directory), (["m", "main"], .directory),
    (["m", "auth", "0001_initial.json"], .file (some userMigration.text)),
    (["m", "main", "0001_initial.json"], .file (some pageMigration.text)),
    (["m", "main", "0002_posts.json"], .file (some postMigration.text))]

open MigrationStore

/-- A migration is read from the file that holds its text. -/
theorem readFile_of_text {store : MigrationStore} {tree : FileTree} {app file : String}
    {places : List String} {migration : Migration}
    (hplaces : Path.places (Path.join (store.appDirectory app) file) = places)
    (hfound : tree.follow [] .directory places = .ok (.file (some migration.text)))
    (hread : Migration.read store.vocabulary migration.text = .ok migration)
    (hname : migration.name = (Path.splitName file).1) (happ : migration.app = app) :
    store.readFile tree app file = .ok migration := by
  refine readFile_eq_ok.mpr ⟨migration.text, ?_, hread, hname, happ⟩
  rw [FileTree.read, FileTree.find, hplaces, hfound]
  rfl

theorem read_pageMigration : Migration.read .standard pageMigration.text = .ok pageMigration :=
  Migration.read_text_eq (by decide +kernel) (by decide +kernel) (by decide +kernel)

theorem read_userMigration : Migration.read .standard userMigration.text = .ok userMigration :=
  Migration.read_text_eq (by decide +kernel) (by decide +kernel) (by decide +kernel)

theorem read_postMigration : Migration.read .standard postMigration.text = .ok postMigration :=
  Migration.read_text_eq (by decide +kernel) (by decide +kernel) (by decide +kernel)

theorem load_auth : shelf.load twoAppTree "auth" = .ok [userMigration] := by
  have hdirectory : Path.places (shelf.appDirectory "auth") = ["m", "auth"] := by decide +kernel
  have hentries : twoAppTree.entries (shelf.appDirectory "auth")
      = .ok [("0001_initial.json", .file (some userMigration.text))] := by
    refine FileTree.entries_eq_ok.mpr ⟨by decide +kernel, ?_⟩
    rw [hdirectory]
    rfl
  have hfile : Path.places (Path.join (shelf.appDirectory "auth") "0001_initial.json")
      = ["m", "auth", "0001_initial.json"] := by decide +kernel
  have hread : shelf.readFile twoAppTree "auth" "0001_initial.json" = .ok userMigration :=
    readFile_of_text hfile rfl read_userMigration (by decide +kernel) rfl
  exact (load_eq_ok (by decide +kernel)).mpr ⟨_, _, hentries, .cons hread .nil, List.Perm.refl _,
    List.pairwise_singleton _ _, List.nodup_singleton _⟩

theorem load_main : shelf.load twoAppTree "main" = .ok [pageMigration, postMigration] := by
  have hdirectory : Path.places (shelf.appDirectory "main") = ["m", "main"] := by decide +kernel
  have hentries : twoAppTree.entries (shelf.appDirectory "main")
      = .ok [("0001_initial.json", .file (some pageMigration.text)),
        ("0002_posts.json", .file (some postMigration.text))] := by
    refine FileTree.entries_eq_ok.mpr ⟨by decide +kernel, ?_⟩
    rw [hdirectory]
    rfl
  have hfile : Path.places (Path.join (shelf.appDirectory "main") "0001_initial.json")
      = ["m", "main", "0001_initial.json"] := by decide +kernel
  have hfile' : Path.places (Path.join (shelf.appDirectory "main") "0002_posts.json")
      = ["m", "main", "0002_posts.json"] := by decide +kernel
  have hread : shelf.readFile twoAppTree "main" "0001_initial.json" = .ok pageMigration :=
    readFile_of_text hfile rfl read_pageMigration (by decide +kernel) rfl
  have hread' : shelf.readFile twoAppTree "main" "0002_posts.json" = .ok postMigration :=
    readFile_of_text hfile' rfl read_postMigration (by decide +kernel) rfl
  refine (load_eq_ok (by decide +kernel)).mpr ⟨_, _, hentries, .cons hread (.cons hread' .nil),
    List.Perm.refl _, ?_, ?_⟩
  · decide
  · decide +kernel

theorem readAll_twoApps : shelf.readAll twoAppTree = .ok twoApps := by
  have happs : shelf.apps twoAppTree = .ok ["auth", "main"] := by decide +kernel
  have hloads := Except.mapM_eq_ok.mpr (List.Forall₂.cons load_auth (.cons load_main .nil))
  exact Except.bind_eq_ok.mpr ⟨_, happs, Except.bind_eq_ok.mpr ⟨_, hloads, rfl⟩⟩

theorem graph_twoApps : DependencyGraph.ofList twoApps = ⟨twoApps⟩ := rfl

theorem order_twoApps : (DependencyGraph.mk twoApps).order
    = .ok [pageMigration, userMigration, postMigration] := by
  have hpending : (DependencyGraph.mk twoApps).pending = .ok [
      ⟨userMigration, [⟨"main", "0001_initial"⟩]⟩, ⟨pageMigration, []⟩,
      ⟨postMigration, [⟨"auth", "0001_initial"⟩, ⟨"main", "0001_initial"⟩]⟩] := rfl
  rw [DependencyGraph.order, hpending]
  show DependencyGraph.arrange [] _ = _
  simp +decide [DependencyGraph.arrange, DependencyGraph.firstReady?, userMigration, pageMigration,
    postMigration]

theorem isPlan_main : IsPlan ⟨twoApps⟩ (some "main") (some "0002")
    [pageMigration, userMigration, postMigration] := by
  have hreach : (DependencyGraph.mk twoApps).reach []
      [⟨"main", "0002_posts"⟩, ⟨"main", "0001_initial"⟩]
      = .ok [⟨"auth", "0001_initial"⟩, ⟨"main", "0001_initial"⟩, ⟨"main", "0002_posts"⟩] := by
    cbv
  have hplan : (DependencyGraph.mk twoApps).plan "main"
      = .ok [pageMigration, userMigration, postMigration] :=
    Except.bind_eq_ok.mpr ⟨_, hreach, Except.bind_eq_ok.mpr ⟨_, order_twoApps, rfl⟩⟩
  refine choose_eq_ok.mp ?_
  rw [choose_some, if_neg (by decide), hplan]
  decide +kernel

/-- A database that writes down what it is asked to do and refuses nothing. The pages are there. -/
def writer : Backend (Store (List Statement)) :=
  Store.backend .sqlite Operation.noteMoment
    (fun statement written => some (written ++ [statement])) fun _ _ => false

def pagesThere : Transcript (Store (List Statement)) :=
  ⟨⟨⟨[], [⟨1, "main", "0001_initial", "0001", none⟩], none, 0⟩, 0⟩, #[]⟩

theorem inOrder_main : Migration.InOrder "main" [pageMigration, postMigration]
    [pageMigration, postMigration] where
  perm := .refl _
  ascending := by decide
  app_eq := by decide
  numbered := by simp [Migration.Numbered]; decide

theorem inOrder_auth : Migration.InOrder "auth" [userMigration] [userMigration] where
  perm := .refl _
  ascending := by decide
  app_eq := by decide
  numbered := by simp [Migration.Numbered]; decide

theorem sorted_main : Migrator.sorted "main" [pageMigration, postMigration]
    = .ok [pageMigration, postMigration] :=
  inOrder_main.sorted_eq

theorem sorted_auth : Migrator.sorted "auth" [userMigration] = .ok [userMigration] :=
  inOrder_auth.sorted_eq

/-- The plan of the main app goes through the other app: it takes three runs. -/
theorem exists_carryOut : ∃ τ, carryOut { backend := writer } ⟨twoApps⟩
    (runs [pageMigration, userMigration, postMigration]) pagesThere = .ok () τ := by
  have hruns : carryOut (Migrator.mk writer false) ⟨twoApps⟩
      (runs [pageMigration, userMigration, postMigration]) = (do
        (do let _ ← Migrator.apply { backend := writer } "main" [pageMigration, postMigration]
              (some "0001_initial"))
        (do let _ ← Migrator.apply { backend := writer } "auth" [userMigration]
              (some "0001_initial"))
        (do let _ ← Migrator.apply { backend := writer } "main" [pageMigration, postMigration]
              (some "0002_posts"))
        pure ()) := rfl
  have hok : (match carryOut { backend := writer } ⟨twoApps⟩
      (runs [pageMigration, userMigration, postMigration]) pagesThere with
      | .ok _ _ => true
      | .error .. => false) = true := by
    rw [hruns]
    unfold Migrator.apply
    rw [sorted_auth, sorted_main]
    decide +kernel
  split at hok
  · next τ heq => exact ⟨τ, heq⟩
  · cases hok

/-- The posts are asked for. The pages are there, so the users are added and then the posts. -/
theorem posts_migrated : ∃ τ, shelf.readAll twoAppTree = .ok twoApps ∧
    Plan.migrate { backend := writer } twoApps (some "main") (some "0002") pagesThere = .ok () τ ∧
    View.Advanced (fun statement written => some (written ++ [statement]))
      (HasScript .sqlite Operation.noteMoment ⟨twoApps⟩) [userMigration, postMigration]
      pagesThere.database.view τ.database.view := by
  have hreliable : writer.Reliable (fun statement written => some (written ++ [statement]))
      Store.view := Store.reliable _ _ _ _
  have hclosed : (Store.view pagesThere.database).saved = none := rfl
  have hmigrated := migrate_carries_out hreliable rfl readAll_twoApps order_twoApps hclosed
    (some "main") (some "0002")
  obtain ⟨τ, hcarried⟩ := exists_carryOut
  have hrun : Plan.migrate { backend := writer } twoApps (some "main") (some "0002") pagesThere
      = .ok () τ := by
    unfold Plan.migrate
    rw [graph_twoApps, choose_eq_ok.mpr isPlan_main]
    exact hcarried
  rw [hrun] at hmigrated
  obtain ⟨plan, hplan, hadvanced⟩ := hmigrated
  have hsame := (choose_eq_ok.mpr hplan).symm.trans (choose_eq_ok.mpr isPlan_main)
  cases hsame
  exact ⟨τ, readAll_twoApps, hrun, hadvanced⟩

end SchemaHistory.Plan
