import SchemaHistory.Plan
import SchemaHistory.Proofs.DependencyOrder

/-!
# Plans

A plan is `Migration.Feasible`: each migration in it stands behind all that it comes after. The
order of all migrations is feasible, and so is the part of it that an app needs, since all that a
needed migration comes after is needed too (`feasible_plan`). A plan can be cut behind any
migration, and the runs it is carried out in are stretches of it (`runs_eq_cons`).
-/

namespace SchemaHistory

namespace Migration

variable {migrations plan placed rest : List Migration} {migration other : Migration}

/-- A plan that can be carried out in turn: each migration of it is there once, and behind all that
it comes after. -/
structure Feasible (migrations plan : List Migration) : Prop where
  nodup : plan.Nodup
  subset : plan ⊆ migrations
  eachFollows : EachFollows migrations plan

/-- A part of a feasible plan that has, with a migration, all that it comes after. -/
theorem Feasible.filter (h : Feasible migrations plan) {keep : Migration → Bool}
    (hkeep : ∀ migration ∈ plan, keep migration = true →
      ∀ earlier, ComesAfter migrations migration earlier → keep earlier = true) :
    Feasible migrations (plan.filter keep) where
  nodup := h.nodup.filter _
  subset := fun _ hmem => h.subset (List.mem_of_mem_filter hmem)
  eachFollows := by
    intro placed migration rest hsplit earlier hafter
    obtain ⟨front, tail, hplan, hfront, htail⟩ := List.filter_eq_append_iff.mp hsplit
    obtain ⟨skipped, back, rfl, hskipped, hmigration, -⟩ := List.filter_eq_cons_iff.mp htail
    have hsplit' : plan = (front ++ skipped) ++ migration :: back := by
      rw [hplan, List.append_assoc]
    have hmem : migration ∈ plan := hsplit' ▸ List.mem_append_right _ List.mem_cons_self
    have hearlier := h.eachFollows _ _ _ hsplit' earlier hafter
    have hkept := hkeep migration hmem hmigration earlier hafter
    rw [← hfront]
    refine List.mem_filter.mpr ⟨?_, hkept⟩
    -- nothing between the part kept and the migration is kept itself
    rcases List.mem_append.mp hearlier with hin | hin
    · exact hin
    · exact absurd hkept (hskipped earlier hin)

/-- A feasible order is feasible up to any point. -/
theorem Feasible.of_append (h : Feasible migrations (placed ++ rest)) :
    Feasible migrations placed where
  nodup := (List.nodup_append.mp h.nodup).1
  subset := fun _ hmem => h.subset (List.mem_append_left _ hmem)
  eachFollows := by
    rintro front migration back rfl
    exact h.eachFollows front migration (back ++ rest) (by simp)

theorem Feasible.mem_split (h : Feasible migrations (placed ++ migration :: rest)) :
    migration ∈ migrations :=
  h.subset (List.mem_append_right _ List.mem_cons_self)

section Distinct

variable (hdistinct : (migrations.map Migration.key).Nodup)

include hdistinct

/-- What is before a migration in its app stands before it. -/
theorem Feasible.earlier_mem (h : Feasible migrations (placed ++ migration :: rest))
    (hother : other ∈ migrations) (happ : other.app = migration.app)
    (hname : other.name < migration.name) : other ∈ placed :=
  h.eachFollows.earlier_mem hdistinct rfl hother happ hname

/-- What stands behind a migration and is of its app is behind it in the app. -/
theorem Feasible.name_lt (h : Feasible migrations (placed ++ migration :: rest))
    (hother : other ∈ rest) (happ : other.app = migration.app) :
    migration.name < other.name := by
  have hmem : other ∈ migrations :=
    h.subset (List.mem_append_right _ (List.mem_cons_of_mem _ hother))
  obtain ⟨-, hrest, hapart⟩ := List.nodup_append.mp h.nodup
  rcases lt_trichotomy migration.name other.name with hlt | heq | hlt
  · exact hlt
  · have hsame : migration = other := by
      refine List.inj_on_of_nodup_map hdistinct h.mem_split hmem ?_
      simp only [key, happ, heq]
    exact absurd (hsame ▸ hother) (List.nodup_cons.mp hrest).1
  · have hin := h.earlier_mem hdistinct hmem happ hlt
    exact absurd rfl (hapart other hin other (List.mem_cons_of_mem _ hother))

/-- The migrations of one app stand in the order of their names. -/
theorem Feasible.pairwise (h : Feasible migrations (placed ++ rest)) :
    rest.Pairwise fun a b => b.app = a.app → a.name < b.name := by
  induction rest generalizing placed with
  | nil => exact List.Pairwise.nil
  | cons migration rest ih =>
      refine List.pairwise_cons.mpr ⟨fun other hother => h.name_lt hdistinct hother, ?_⟩
      rw [List.append_cons] at h
      exact ih h

/-- What a migration of a plan depends on is in the plan, and before it in the app if it is of its
app. -/
theorem Feasible.exists_dependency (h : Feasible migrations plan)
    (hcomplete : ∀ migration ∈ migrations, ∀ dependency, ¬migration.Lacks migrations dependency)
    (hmem : migration ∈ plan) {dependency : String × String}
    (hdependency : dependency ∈ migration.dependencies) :
    ∃ earlier ∈ plan, (earlier.app, earlier.name) = dependency ∧
      (earlier.app = migration.app → earlier.name < migration.name) := by
  have hfound := hcomplete migration (h.subset hmem) dependency
  simp only [Lacks, not_and, not_forall, not_not, exists_prop] at hfound
  obtain ⟨earlier, hearlier, heq⟩ := hfound hdependency
  obtain ⟨placed, rest, rfl⟩ := List.append_of_mem hmem
  have hplaced := h.eachFollows placed migration rest rfl earlier
    ⟨hearlier, Or.inl (heq ▸ hdependency)⟩
  refine ⟨earlier, List.mem_append_left _ hplaced, heq, fun happ => ?_⟩
  have hwhole : Feasible migrations ([] ++ (placed ++ migration :: rest)) := h
  exact (List.pairwise_append.mp (hwhole.pairwise hdistinct)).2.2 earlier hplaced migration
    List.mem_cons_self happ.symm

end Distinct

end Migration

namespace DependencyGraph

open Migration

variable {graph : DependencyGraph} {app : String} {migration : Migration}
  {ordered plan : List Migration} {needed stack result : List MigrationKey} {e : MigrationError}

/-- The order of the graph puts dependencies first. -/
theorem feasible_order (horder : InOrder graph.migrations) (hok : graph.order = .ok ordered) :
    Feasible graph.migrations ordered := by
  obtain ⟨hperm, hturn⟩ := placedInTurn_of_order horder hok
  exact ⟨hperm.nodup_iff.mpr horder.nodup_keys.of_map, fun _ => hperm.mem_iff.mp, hturn.eachFollows⟩

/-! ### What is needed -/

/-- What the migrations that are needed come after is needed too, or about to be looked at. -/
def Covered (graph : DependencyGraph) (needed stack : List MigrationKey) : Prop :=
  ∀ migration ∈ graph.migrations, migration.key ∈ needed →
    ∀ earlier, ComesAfter graph.migrations migration earlier →
      earlier.key ∈ needed ∨ earlier.key ∈ stack

/-- Everything that was to be looked at is needed in the end, with all that it comes after. -/
theorem reach_eq_ok (horder : InOrder graph.migrations) (hcovered : graph.Covered needed stack)
    (hok : graph.reach needed stack = .ok result) :
    (∀ key, key ∈ needed ∨ key ∈ stack → key ∈ result) ∧ graph.Covered result [] := by
  fun_induction reach graph needed stack with
  | case1 needed =>
      cases hok
      exact ⟨fun key hkey => hkey.resolve_right nofun, hcovered⟩
  | case2 needed key rest hneeded ih =>
      have hkey : key ∈ needed := by simpa using hneeded
      have hrest : graph.Covered needed rest := by
        intro migration hmem hin earlier hafter
        rcases hcovered migration hmem hin earlier hafter with h | h
        · exact Or.inl h
        · rcases List.mem_cons.mp h with h | h
          · exact Or.inl (h ▸ hkey)
          · exact Or.inr h
      obtain ⟨hall, hclosed⟩ := ih hrest hok
      refine ⟨fun other hother => hall other ?_, hclosed⟩
      rcases hother with h | h
      · exact Or.inl h
      · rcases List.mem_cons.mp h with rfl | h
        · exact Or.inl hkey
        · exact Or.inr h
  | case3 needed key rest hneeded hget ih =>
      have hnone : ∀ migration ∈ graph.migrations, migration.key ≠ key := by
        simpa using List.find?_eq_none.mp hget
      have hrest : graph.Covered (key :: needed) rest := by
        intro migration hmem hin earlier hafter
        have hin := (List.mem_cons.mp hin).resolve_left (hnone migration hmem)
        rcases hcovered migration hmem hin earlier hafter with h | h
        · exact Or.inl (List.mem_cons_of_mem _ h)
        · rcases List.mem_cons.mp h with h | h
          · exact Or.inl (h ▸ List.mem_cons_self)
          · exact Or.inr h
      obtain ⟨hall, hclosed⟩ := ih hrest hok
      refine ⟨fun other hother => hall other ?_, hclosed⟩
      simp only [List.mem_cons] at hother ⊢
      tauto
  | case4 needed key rest hneeded found hget e herror =>
      cases hok
  | case5 needed key rest hneeded found hget dependencies hdependencies ih =>
      have hkey : found.key = key := by simpa using List.find?_some hget
      have hfound : found ∈ graph.migrations := List.mem_of_find?_eq_some hget
      have hrest : graph.Covered (key :: needed) (dependencies.reverse ++ rest) := by
        intro migration hmem hin earlier hafter
        rw [List.mem_append, List.mem_reverse]
        rcases List.mem_cons.mp hin with hin | hin
        · -- the migration that is looked at brings what it comes after
          obtain rfl := horder.eq_of_key_eq hmem hfound (hin.trans hkey.symm)
          exact Or.inr (Or.inl ((mem_dependencies horder hdependencies).mpr ⟨earlier, hafter, rfl⟩))
        · rcases hcovered migration hmem hin earlier hafter with h | h
          · exact Or.inl (List.mem_cons_of_mem _ h)
          · rcases List.mem_cons.mp h with h | h
            · exact Or.inl (h ▸ List.mem_cons_self)
            · exact Or.inr (Or.inr h)
      obtain ⟨hall, hclosed⟩ := ih hrest hok
      refine ⟨fun other hother => hall other ?_, hclosed⟩
      simp only [List.mem_cons, List.mem_append] at hother ⊢
      tauto

theorem reach_eq_error (herror : graph.reach needed stack = .error e) :
    ∃ migration ∈ graph.migrations, graph.dependencies migration = .error e := by
  fun_induction reach graph needed stack with
  | case1 needed => cases herror
  | case2 needed key rest hneeded ih => exact ih herror
  | case3 needed key rest hneeded hget ih => exact ih herror
  | case4 needed key rest hneeded found hget e' hfails =>
      cases herror
      exact ⟨found, List.mem_of_find?_eq_some hget, hfails⟩
  | case5 needed key rest hneeded found hget dependencies hdependencies ih => exact ih herror

/-- Where the migrations have an order, each app has a plan. -/
theorem exists_plan (horder : InOrder graph.migrations) (hok : graph.order = .ok ordered)
    (app : String) : ∃ plan, graph.plan app = .ok plan := by
  unfold DependencyGraph.plan
  cases hreach : graph.reach [] ((graph.ofApp app).map Migration.key).reverse with
  | ok needed =>
      rw [hok]
      exact ⟨_, rfl⟩
  | error e =>
      obtain ⟨migration, hmem, hfails⟩ := reach_eq_error hreach
      obtain ⟨dependency, hlacks, -⟩ := dependencies_eq_error hfails
      rcases order_cases horder with ⟨_, -, _, -, herror⟩ | ⟨hcomplete, -⟩
      · rw [hok] at herror
        cases herror
      · exact absurd hlacks (hcomplete migration hmem dependency)

theorem feasible_plan (horder : InOrder graph.migrations) (hok : graph.plan app = .ok plan) :
    Feasible graph.migrations plan := by
  obtain ⟨needed, hreach, h⟩ := Except.bind_eq_ok.mp hok
  obtain ⟨ordered, hordered, h⟩ := Except.bind_eq_ok.mp h
  cases h
  have hbegin : graph.Covered [] ((graph.ofApp app).map Migration.key).reverse := by
    intro migration _ hin
    cases hin
  obtain ⟨-, hclosed⟩ := reach_eq_ok horder hbegin hreach
  refine (feasible_order horder hordered).filter fun migration hmem hneeded earlier hafter => ?_
  have hin : migration ∈ graph.migrations := (feasible_order horder hordered).subset hmem
  simp only [List.contains_iff_mem] at hneeded ⊢
  exact (hclosed migration hin hneeded earlier hafter).resolve_right nofun

end DependencyGraph

namespace Plan

open Migration

variable {graph : DependencyGraph} {app target : String} {app? target? : Option String}
  {migration : Migration} {ordered plan cutPlan rest : List Migration} {run : PlanRun}
  {later : List PlanRun} {e : MigrationError}

/-! ### Choosing -/

/-- A plan is cut after the first migration that is the target. -/
theorem cut_eq_ok : cut app target plan = .ok cutPlan ↔
    ∃ before last rest, plan = before ++ last :: rest ∧ cutPlan = before ++ [last] ∧
      isTarget app target last = true ∧
      ∀ other ∈ before, isTarget app target other = false := by
  induction plan generalizing cutPlan with
  | nil => simp [cut]
  | cons first rest ih =>
      rw [cut]
      by_cases hfirst : isTarget app target first = true
      · rw [if_pos hfirst, Except.ok.injEq]
        constructor
        · rintro rfl
          exact ⟨[], first, rest, rfl, rfl, hfirst, nofun⟩
        · rintro ⟨before, last, back, hplan, rfl, -, hnone⟩
          cases before with
          | nil =>
              obtain ⟨rfl, -⟩ := List.cons.inj hplan
              rfl
          | cons other before =>
              obtain ⟨rfl, -⟩ := List.cons.inj hplan
              rw [hnone first List.mem_cons_self] at hfirst
              cases hfirst
      · rw [if_neg hfirst, Except.bind_eq_ok]
        constructor
        · rintro ⟨cutRest, hrest, h⟩
          cases h
          obtain ⟨before, last, back, rfl, rfl, hlast, hnone⟩ := ih.mp hrest
          exact ⟨first :: before, last, back, rfl, rfl, hlast,
            List.forall_mem_cons.mpr ⟨by simpa using hfirst, hnone⟩⟩
        · rintro ⟨before, last, back, hplan, rfl, hlast, hnone⟩
          cases before with
          | nil =>
              obtain ⟨rfl, -⟩ := List.cons.inj hplan
              exact absurd hlast hfirst
          | cons other before =>
              obtain ⟨rfl, rfl⟩ := List.cons.inj hplan
              exact ⟨before ++ [last], ih.mpr ⟨before, last, back, rfl, rfl, hlast,
                (List.forall_mem_cons.mp hnone).2⟩, rfl⟩

theorem cut_eq_error (h : cut app target plan = .error e) : e = .notFound app target := by
  induction plan with
  | nil =>
      cases h
      rfl
  | cons first rest ih =>
      rw [cut] at h
      split at h
      · cases h
      · cases hrest : cut app target rest with
        | ok cutRest =>
            rw [hrest] at h
            cases h
        | error e' =>
            rw [hrest] at h
            cases h
            exact ih hrest

/-- The plan to carry out: for all apps the order of all migrations, for one app what it needs, and
with a target that up to the first migration of the app that has its name or number. -/
inductive IsPlan (graph : DependencyGraph) : Option String → Option String → List Migration → Prop
  where
  | all {plan : List Migration} (target? : Option String) :
      graph.order = .ok plan → IsPlan graph none target? plan
  | ofApp {app : String} {plan : List Migration} :
      graph.ofApp app ≠ [] → graph.plan app = .ok plan → IsPlan graph (some app) none plan
  | upTo {app target : String} {before rest : List Migration} {last : Migration} :
      graph.ofApp app ≠ [] → graph.plan app = .ok (before ++ last :: rest) →
      isTarget app target last = true → (∀ other ∈ before, isTarget app target other = false) →
      IsPlan graph (some app) (some target) (before ++ [last])

theorem choose_some : choose graph (some app) target? =
    if graph.ofApp app = [] then .error (.unknownApp app)
    else graph.plan app >>= fun whole =>
      match target? with
      | some target => cut app target whole
      | none => .ok whole := by
  unfold choose
  simp only [List.isEmpty_iff]
  split <;> rfl

/-- What is chosen is a plan in the sense of `IsPlan`, and every such plan is. -/
theorem choose_eq_ok : choose graph app? target? = .ok plan ↔ IsPlan graph app? target? plan := by
  cases app? with
  | none =>
      constructor
      · exact fun h => .all target? h
      · rintro ⟨⟩
        assumption
  | some app =>
      rw [choose_some]
      by_cases hempty : graph.ofApp app = []
      · rw [if_pos hempty]
        constructor
        · nofun
        · rintro (_ | ⟨hne, -⟩ | ⟨hne, -⟩)
          · exact absurd hempty hne
          · exact absurd hempty hne
      · rw [if_neg hempty, Except.bind_eq_ok]
        constructor
        · rintro ⟨whole, hwhole, h⟩
          cases target? with
          | none =>
              cases h
              exact .ofApp hempty hwhole
          | some target =>
              obtain ⟨before, last, rest, rfl, rfl, hlast, hnone⟩ := cut_eq_ok.mp h
              exact .upTo hempty hwhole hlast hnone
        · rintro (_ | ⟨-, hwhole⟩ | ⟨-, hwhole, hlast, hnone⟩)
          · exact ⟨plan, hwhole, rfl⟩
          · exact ⟨_, hwhole, cut_eq_ok.mpr ⟨_, _, _, rfl, rfl, hlast, hnone⟩⟩

theorem IsPlan.feasible (horder : DependencyGraph.InOrder graph.migrations)
    (h : IsPlan graph app? target? plan) :
    Feasible graph.migrations plan := by
  cases h with
  | all _ hok => exact DependencyGraph.feasible_order horder hok
  | ofApp _ hok => exact DependencyGraph.feasible_plan horder hok
  | @upTo app target before rest last _ hok =>
      have hwhole := DependencyGraph.feasible_plan horder hok
      rw [List.append_cons] at hwhole
      exact hwhole.of_append

theorem IsPlan.exists_order (h : IsPlan graph app? target? plan) :
    ∃ ordered, graph.order = .ok ordered := by
  have hwhole : ∀ {app : String} {plan : List Migration}, graph.plan app = .ok plan →
      ∃ ordered, graph.order = .ok ordered := by
    intro app plan hok
    obtain ⟨needed, -, hok⟩ := Except.bind_eq_ok.mp hok
    obtain ⟨ordered, hordered, -⟩ := Except.bind_eq_ok.mp hok
    exact ⟨ordered, hordered⟩
  cases h with
  | all _ hok => exact ⟨plan, hok⟩
  | ofApp _ hok => exact hwhole hok
  | upTo _ hok => exact hwhole hok

/-- Where the migrations have an order, there is no plan only for what is not known. -/
theorem choose_eq_error (horder : DependencyGraph.InOrder graph.migrations)
    (hok : graph.order = .ok ordered) (h : choose graph app? target? = .error e) :
    (∃ app, e = .unknownApp app) ∨ ∃ app target, e = .notFound app target := by
  cases app? with
  | none =>
      rw [show choose graph none target? = graph.order from rfl, hok] at h
      cases h
  | some app =>
      rw [choose_some] at h
      split at h
      · cases h
        exact Or.inl ⟨app, rfl⟩
      · obtain ⟨whole, hwhole⟩ := DependencyGraph.exists_plan horder hok app
        rw [hwhole] at h
        cases target? with
        | none => cases h
        | some target => exact Or.inr ⟨app, target, cut_eq_error h⟩

/-! ### Runs -/

/-- Only an empty plan has no runs. -/
theorem runs_eq_nil : runs plan = [] ↔ plan = [] := by
  cases plan with
  | nil => exact iff_of_true rfl rfl
  | cons migration rest =>
      refine iff_of_false ?_ (List.cons_ne_nil _ _)
      rw [runs]
      split
      · split <;> exact List.cons_ne_nil _ _
      · exact List.cons_ne_nil _ _

/-- A run is a stretch of the plan, up to the migration it names and up to the next app, and the
later runs are those of the rest. -/
theorem runs_eq_cons (h : runs plan = run :: later) :
    ∃ before last rest, plan = before ++ last :: rest ∧ runs rest = later ∧
      (∀ migration ∈ before, migration.app = run.app) ∧
      last.app = run.app ∧ last.name = run.last ∧
      ∀ next ∈ rest.head?, next.app ≠ run.app := by
  induction plan generalizing run later with
  | nil => cases h
  | cons migration rest ih =>
      rw [runs] at h
      split at h
      next next more hrest =>
        obtain ⟨before, last, back, hsplit, hruns, hbefore, hlast, hname, hnext⟩ := ih hrest
        split at h
        next happ =>
          -- the run goes on with what follows
          obtain ⟨rfl, rfl⟩ := List.cons.inj h
          refine ⟨migration :: before, last, back, by rw [hsplit]; rfl, hruns,
            List.forall_mem_cons.mpr ⟨happ.symm, hbefore⟩, hlast, hname, hnext⟩
        next happ =>
          obtain ⟨rfl, rfl⟩ := List.cons.inj h
          refine ⟨[], migration, rest, rfl, hrest, nofun, rfl, rfl, ?_⟩
          rw [hsplit]
          cases before with
          | nil =>
              intro first hfirst
              cases hfirst
              rw [hlast]
              exact happ
          | cons first before =>
              intro first hfirst
              cases hfirst
              rw [hbefore _ List.mem_cons_self]
              exact happ
      next hrest =>
        obtain ⟨rfl, rfl⟩ := List.cons.inj h
        obtain rfl := runs_eq_nil.mp hrest
        exact ⟨[], migration, [], rfl, hrest, nofun, rfl, rfl, nofun⟩

/-- Each migration of a plan is in the stretch of some run. -/
theorem exists_run_of_mem (hmem : migration ∈ plan) :
    ∃ run ∈ runs plan, ∃ placed before last rest, plan = placed ++ (before ++ last :: rest) ∧
      (∀ other ∈ before, other.app = run.app) ∧ last.app = run.app ∧ last.name = run.last ∧
      migration ∈ before ++ [last] := by
  generalize hruns : runs plan = todo
  induction todo generalizing plan with
  | nil =>
      rw [runs_eq_nil.mp hruns] at hmem
      cases hmem
  | cons run later ih =>
      obtain ⟨before, last, rest, rfl, hlater, hbefore, hlast, hname, -⟩ := runs_eq_cons hruns
      rw [List.append_cons, List.mem_append] at hmem
      rcases hmem with hmem | hmem
      · exact ⟨run, List.mem_cons_self, [], before, last, rest, rfl, hbefore, hlast, hname, hmem⟩
      · obtain ⟨other, hother, placed, front, final, back, rfl, hrest⟩ := ih hmem hlater
        refine ⟨other, List.mem_cons_of_mem _ hother, before ++ last :: placed, front, final, back,
          ?_, hrest⟩
        rw [List.append_assoc, List.cons_append]

end Plan

end SchemaHistory
