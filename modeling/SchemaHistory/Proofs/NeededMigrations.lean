import SchemaHistory.Proofs.NameOrder
import SchemaHistory.Proofs.Plans

/-!
# What an app needs

An app needs its own migrations and, with each migration that it needs, all that this one comes
after. `DependencyGraph.reach` finds them by walking through the graph. A walk takes no migration
twice, so it ends, whether or not some migration comes after itself (`wellFounded_step`), and all
that it comes to is needed (`Walk.Step.isSound`). A plan is the part of the order of all migrations
that an app needs.
-/

namespace SchemaHistory

namespace Migration

variable {migrations : List Migration} {app : String} {migration : Migration}

/-- What an app needs: its own migrations, and whatever a needed one comes after. -/
inductive NeededFor (migrations : List Migration) (app : String) : Migration → Prop where
  | own {migration : Migration} : migration ∈ migrations → migration.app = app →
      NeededFor migrations app migration
  | earlier {later earlier : Migration} : NeededFor migrations app later →
      ComesAfter migrations later earlier → NeededFor migrations app earlier

theorem NeededFor.mem (h : NeededFor migrations app migration) : migration ∈ migrations := by
  cases h with
  | own hmem _ => exact hmem
  | earlier _ hafter => exact hafter.mem

end Migration

namespace DependencyGraph

open Migration Relation

variable {graph : DependencyGraph} {app : String} {migration other : Migration}
  {added ordered plan : List Migration} {key : MigrationKey}
  {needed stack result : List MigrationKey}

/-- Of the migrations with one key, the one that was added last is in the graph. -/
theorem mem_ofList_iff : migration ∈ (ofList added).migrations ↔
    ∃ front back, added = front ++ migration :: back ∧
      ∀ other ∈ back, other.key ≠ migration.key := by
  induction added using List.reverseRecOn with
  | nil => simp [ofList]
  | append_singleton rest last ih =>
      have hlast : ofList (rest ++ [last]) = (ofList rest).add last := by simp [ofList]
      rw [hlast, add, mem_place inOrder_ofList, ih]
      constructor
      · rintro (rfl | ⟨⟨front, back, rfl, hback⟩, hkey⟩)
        · exact ⟨rest, [], rfl, by simp⟩
        · refine ⟨front, back ++ [last], by simp, ?_⟩
          intro other hother
          rcases List.mem_append.mp hother with hother | hother
          · exact hback other hother
          · rw [List.mem_singleton.mp hother]
            exact hkey.symm
      · rintro ⟨front, back, hsplit, hback⟩
        rcases List.eq_nil_or_concat back with rfl | ⟨back, final, rfl⟩
        · obtain ⟨-, hsame⟩ := List.append_inj' hsplit rfl
          exact Or.inl (List.singleton_inj.mp hsame).symm
        · have hsplit' : rest ++ [last] = (front ++ migration :: back) ++ [final] := by
            simpa using hsplit
          obtain ⟨rfl, hfinal⟩ := List.append_inj' hsplit' rfl
          obtain rfl := List.singleton_inj.mp hfinal
          simp only [List.concat_eq_append, List.forall_mem_append] at hback
          exact Or.inr ⟨⟨front, back, rfl, hback.1⟩, (hback.2 last List.mem_cons_self).symm⟩

/-! ### Walking through the graph -/

/-- How far a walk has come: the keys that are needed, and those still to be looked at, the next one
first. -/
structure Walk where
  needed : List MigrationKey
  stack : List MigrationKey

/-- One step of a walk. A key that is new is needed, and what its migration comes after is looked at
next, the last first. -/
inductive Walk.Step (graph : DependencyGraph) : Walk → Walk → Prop where
  | known {key : MigrationKey} {needed rest : List MigrationKey} : key ∈ needed →
      Step graph ⟨needed, key :: rest⟩ ⟨needed, rest⟩
  | absent {key : MigrationKey} {needed rest : List MigrationKey} : key ∉ needed →
      graph.get? key = none → Step graph ⟨needed, key :: rest⟩ ⟨key :: needed, rest⟩
  | found {key : MigrationKey} {needed rest dependencies : List MigrationKey}
      {migration : Migration} : key ∉ needed → graph.get? key = some migration →
      graph.dependencies migration = .ok dependencies →
      Step graph ⟨needed, key :: rest⟩ ⟨key :: needed, dependencies.reverse ++ rest⟩

def Walk.start (graph : DependencyGraph) (app : String) : Walk :=
  ⟨[], ((graph.ofApp app).map Migration.key).reverse⟩

/-- All that a walk has come to is needed for the app. -/
def Walk.IsSound (graph : DependencyGraph) (app : String) (walk : Walk) : Prop :=
  ∀ key, key ∈ walk.needed ∨ key ∈ walk.stack →
    ∃ migration, NeededFor graph.migrations app migration ∧ migration.key = key

/-- No walk goes on for ever. Each migration is taken once, and between two of them the stack gets
shorter. -/
theorem wellFounded_step (graph : DependencyGraph) :
    WellFounded fun later earlier => Walk.Step graph earlier later := by
  let measure (walk : Walk) : Nat × Nat :=
    (countUnneeded walk.needed graph.migrations, walk.stack.length)
  refine Subrelation.wf (r := InvImage (Prod.Lex (· < ·) (· < ·)) measure) ?_
    (InvImage.wf measure (WellFounded.prod_lex Nat.lt_wfRel.wf Nat.lt_wfRel.wf))
  intro later earlier hstep
  cases hstep with
  | known _ => exact Prod.Lex.right _ (Nat.lt_succ_self _)
  | @absent key needed rest _ _ =>
      rcases Nat.lt_or_eq_of_le (countUnneeded_cons_le key needed graph.migrations) with hlt | heq
      · exact Prod.Lex.left _ _ hlt
      · show Prod.Lex _ _ (countUnneeded (key :: needed) graph.migrations, _) _
        rw [heq]
        exact Prod.Lex.right _ (Nat.lt_succ_self _)
  | found hnew hget _ =>
      exact Prod.Lex.left _ _ (countUnneeded_cons_lt hget (by simpa using hnew))

/-- A walk can go on in one way only. -/
theorem Walk.Step.unique {walk next next' : Walk} (h : Step graph walk next)
    (h' : Step graph walk next') : next = next' := by
  cases h <;> cases h' <;> simp_all

/-- The search finds what is needed at the end of the walk. -/
theorem reach_eq_ok_iff : graph.reach needed stack = .ok result ↔
    ReflTransGen (Walk.Step graph) ⟨needed, stack⟩ ⟨result, []⟩ := by
  -- a walk that has not ended yet ends where it ends from its next step on
  have hnext : ∀ {key : MigrationKey} {needed rest : List MigrationKey} {next : Walk},
      Walk.Step graph ⟨needed, key :: rest⟩ next →
      (ReflTransGen (Walk.Step graph) next ⟨result, []⟩ ↔
        ReflTransGen (Walk.Step graph) ⟨needed, key :: rest⟩ ⟨result, []⟩) := by
    intro key needed rest next hstep
    constructor
    · exact .head hstep
    · intro hwalk
      rcases hwalk.cases_head with heq | ⟨next', hstep', hwalk⟩
      · cases heq
      · rwa [hstep.unique hstep']
  fun_induction reach graph needed stack with
  | case1 needed =>
      constructor
      · intro h
        cases h
        exact .refl
      · intro h
        rcases h.cases_head with heq | ⟨next, hstep, -⟩
        · cases heq
          rfl
        · cases hstep
  | case2 needed key rest hneeded ih => exact ih.trans (hnext (.known (by simpa using hneeded)))
  | case3 needed key rest hneeded hget ih =>
      exact ih.trans (hnext (.absent (by simpa using hneeded) hget))
  | case4 needed key rest hneeded found hget e herror =>
      constructor
      · intro h
        cases h
      · intro h
        rcases h.cases_head with heq | ⟨next, hstep, -⟩
        · cases heq
        · cases hstep <;> simp_all
  | case5 needed key rest hneeded found hget dependencies hdependencies ih =>
      exact ih.trans (hnext (.found (by simpa using hneeded) hget hdependencies))

section Needed

variable (horder : InOrder graph.migrations)

include horder

/-- No step of the walk reaches a migration that is not needed. -/
theorem Walk.Step.isSound {walk next : Walk} (h : Step graph walk next)
    (hsound : walk.IsSound graph app) : next.IsSound graph app := by
  cases h with
  | known hknown =>
      intro key hkey
      apply hsound
      simp only [List.mem_cons]
      tauto
  | absent _ _ =>
      intro key hkey
      apply hsound
      simp only [List.mem_cons] at hkey ⊢
      tauto
  | @found first needed rest dependencies found hnew hget hdependencies =>
      intro key hkey
      simp only [List.mem_cons, List.mem_append, List.mem_reverse] at hkey
      by_cases hdependency : key ∈ dependencies
      · -- the migration itself is needed, so what it comes after is needed too
        obtain ⟨earlier, hafter, rfl⟩ := (mem_dependencies horder hdependencies).mp hdependency
        obtain ⟨later, hlater, hsame⟩ := hsound first (Or.inr List.mem_cons_self)
        have hfound : found.key = first := by simpa using List.find?_some hget
        obtain rfl := horder.eq_of_key_eq hlater.mem (List.mem_of_find?_eq_some hget)
          (hsame.trans hfound.symm)
        exact ⟨earlier, .earlier hlater hafter, rfl⟩
      · apply hsound
        simp only [List.mem_cons]
        tauto

/-- What the search for an app finds is what the app needs. -/
theorem mem_reach_iff (hok : graph.reach [] (Walk.start graph app).stack = .ok result)
    (hmem : migration ∈ graph.migrations) :
    migration.key ∈ result ↔ NeededFor graph.migrations app migration := by
  have hbegin : graph.Covered [] (Walk.start graph app).stack := by
    intro migration _ hin
    cases hin
  obtain ⟨hall, hclosed⟩ := reach_eq_ok horder hbegin hok
  have hstart : (Walk.start graph app).IsSound graph app := by
    rintro key (hkey | hkey)
    · cases hkey
    · simp only [Walk.start, List.mem_reverse, List.mem_map, mem_ofApp] at hkey
      obtain ⟨own, ⟨hown, happ⟩, rfl⟩ := hkey
      exact ⟨own, .own hown happ, rfl⟩
  constructor
  · intro hkey
    have hend : Walk.IsSound graph app ⟨result, []⟩ := by
      have hwalk : ReflTransGen (Walk.Step graph) (Walk.start graph app) ⟨result, []⟩ :=
        reach_eq_ok_iff.mp hok
      generalize Walk.mk result [] = walk at hwalk
      induction hwalk with
      | refl => exact hstart
      | tail _ hstep ih => exact hstep.isSound horder ih
    obtain ⟨found, hfound, hsame⟩ := hend _ (Or.inl hkey)
    exact horder.eq_of_key_eq hfound.mem hmem hsame ▸ hfound
  · intro hneeded
    clear hmem
    induction hneeded with
    | own hown happ =>
        apply hall
        right
        simpa [Walk.start, mem_ofApp] using ⟨_, ⟨hown, happ⟩, rfl⟩
    | earlier hlater hafter ih => exact (hclosed _ hlater.mem ih _ hafter).resolve_right nofun

/-! ### Plans -/

/-- Where a search fails, so does looking for an order, and neither for a circle. -/
theorem order_of_reach_eq_error {e : MigrationError}
    (herror : graph.reach needed stack = .error e) :
    e ≠ .circularDependency ∧ ∃ e', graph.order = .error e' ∧ e' ≠ .circularDependency := by
  obtain ⟨migration, hmem, hfails⟩ := reach_eq_error herror
  obtain ⟨dependency, hlacks, rfl⟩ := dependencies_eq_error hfails
  refine ⟨nofun, ?_⟩
  rcases order_cases horder with ⟨other, -, missing, -, hordering⟩ | ⟨hcomplete, -⟩
  · exact ⟨_, hordering, nofun⟩
  · exact absurd hlacks (hcomplete migration hmem dependency)

end Needed

/-- A plan is the part of an order that an app needs. So it has all migrations of the app, with each
migration those that this one depends on, and of any app the first ones by name. -/
structure IsPlanFor (graph : DependencyGraph) (app : String) (ordered plan : List Migration) :
    Prop where
  nodup_ordered : ordered.Nodup
  sublist : plan.Sublist ordered
  mem_iff : ∀ migration, migration ∈ plan ↔ NeededFor graph.migrations app migration
  own_mem : ∀ migration ∈ graph.migrations, migration.app = app → migration ∈ plan
  dependency_mem : ∀ migration ∈ plan, ∀ dependency ∈ migration.dependencies,
    ∃ earlier ∈ plan, (earlier.app, earlier.name) = dependency
  first_ofApp : ∀ other, plan.filter (·.app == other) <+: graph.ofApp other

/-- Of every app a feasible plan has the first migrations by name. -/
theorem first_ofApp_of_feasible (horder : InOrder graph.migrations)
    (hplan : Feasible graph.migrations plan) (other : String) :
    plan.filter (·.app == other) <+: graph.ofApp other := by
  have hascending : (graph.ofApp other).Pairwise fun a b => a.name < b.name :=
    ascending_ofApp horder
  -- with a migration, the plan has all before it in its app
  have hdown : (graph.ofApp other).Pairwise fun a b => decide (b ∈ plan) → decide (a ∈ plan) := by
    refine hascending.imp_of_mem ?_
    intro a b ha hb hlt hin
    obtain ⟨hmem, happ⟩ := mem_ofApp.mp ha
    obtain ⟨placed, rest, rfl⟩ := List.append_of_mem (of_decide_eq_true hin)
    have hearlier := hplan.earlier_mem horder.nodup_keys hmem
      (happ.trans (mem_ofApp.mp hb).2.symm) hlt
    simpa using Or.inl hearlier
  have hsame : plan.filter (·.app == other) = (graph.ofApp other).filter fun m => m ∈ plan := by
    have hperm : (plan.filter (·.app == other)).Perm
        ((graph.ofApp other).filter fun m => m ∈ plan) := by
      refine (List.perm_ext_iff_of_nodup (hplan.nodup.filter _) ?_).mpr ?_
      · exact (horder.nodup_keys.of_map.filter _).filter _
      · intro migration
        have := @hplan.subset migration
        simp only [List.mem_filter, mem_ofApp, beq_iff_eq, decide_eq_true_eq]
        tauto
    have hinner : (plan.filter (·.app == other)).Pairwise fun a b => a.name < b.name := by
      have hwhole : Feasible graph.migrations ([] ++ plan) := hplan
      refine ((hwhole.pairwise horder.nodup_keys).filter _).imp_of_mem ?_
      intro a b ha hb hlt
      simp only [List.mem_filter, beq_iff_eq] at ha hb
      exact hlt (hb.2.trans ha.2.symm)
    refine hperm.eq_of_pairwise ?_ hinner (hascending.filter _)
    intro a b _ _ hab hba
    exact absurd hab (lt_asymm hba)
  rw [hsame, ← takeWhile_eq_filter hdown]
  exact List.takeWhile_prefix _

/-- A plan that is made keeps, of the whole order, the migrations that the app needs. -/
theorem isPlanFor_of_plan (horder : InOrder graph.migrations) (hok : graph.plan app = .ok plan) :
    ∃ ordered, graph.order = .ok ordered ∧ IsPlanFor graph app ordered plan := by
  have hfeasible := feasible_plan horder hok
  obtain ⟨needed, hreach, hok⟩ := Except.bind_eq_ok.mp hok
  obtain ⟨ordered, hordered, hok⟩ := Except.bind_eq_ok.mp hok
  cases hok
  obtain ⟨hperm, -⟩ := placedInTurn_of_order horder hordered
  have hmem : ∀ migration, migration ∈ ordered.filter (fun m => needed.contains m.key) ↔
      NeededFor graph.migrations app migration := by
    intro migration
    rw [List.mem_filter, List.contains_iff_mem, hperm.mem_iff]
    constructor
    · rintro ⟨hin, hkey⟩
      exact (mem_reach_iff horder hreach hin).mp hkey
    · intro hneeded
      exact ⟨hneeded.mem, (mem_reach_iff horder hreach hneeded.mem).mpr hneeded⟩
  refine ⟨ordered, hordered, hperm.nodup_iff.mpr horder.nodup_keys.of_map,
    List.filter_sublist, hmem,
    ?_, ?_, first_ofApp_of_feasible horder hfeasible⟩
  · intro migration hin happ
    exact (hmem migration).mpr (.own hin happ)
  · intro migration hin dependency hdependency
    rcases order_cases horder with ⟨_, -, _, -, herror⟩ | ⟨hcomplete, -⟩
    · rw [hordered] at herror
      cases herror
    · obtain ⟨earlier, hearlier, heq, -⟩ :=
        hfeasible.exists_dependency horder.nodup_keys hcomplete hin hdependency
      exact ⟨earlier, hearlier, heq⟩

/-- There is no plan exactly where there is no order, and both for a circle or neither. -/
theorem plan_eq_error_iff (horder : InOrder graph.migrations) :
    ((∃ e, graph.plan app = .error e) ↔ ∃ e, graph.order = .error e) ∧
    (graph.plan app = .error .circularDependency ↔ graph.order = .error .circularDependency) := by
  unfold DependencyGraph.plan
  cases hreach : graph.reach [] ((graph.ofApp app).map Migration.key).reverse with
  | error e =>
      obtain ⟨hcircle, e', hordering, hcircle'⟩ := order_of_reach_eq_error horder hreach
      rw [hordering]
      refine ⟨iff_of_true ⟨e, rfl⟩ ⟨e', rfl⟩, iff_of_false ?_ ?_⟩
      · intro h
        exact hcircle (Except.error.inj h)
      · intro h
        exact hcircle' (Except.error.inj h)
  | ok needed =>
      cases graph.order with
      | error e => exact ⟨Iff.rfl, Iff.rfl⟩
      | ok ordered => exact ⟨iff_of_false nofun nofun, iff_of_false nofun nofun⟩

/-- Put any migrations into a graph; of those with one key, the last one counts. The walk through
the graph that finds what an app needs comes to an end, even if some migrations come after
themselves. The app has a plan exactly where all migrations have an order, and otherwise a circle is
what either both fail for or neither. The plan is the part of the order that the app needs. -/
theorem plan_serves (added : List Migration) (app : String) :
    let graph := ofList added
    (∀ migration, migration ∈ graph.migrations ↔ ∃ front back, added = front ++ migration :: back ∧
      ∀ other ∈ back, other.key ≠ migration.key) ∧
    (WellFounded fun later earlier => Walk.Step graph earlier later) ∧
    (∀ needed, graph.reach [] (Walk.start graph app).stack = .ok needed ↔
      ReflTransGen (Walk.Step graph) (Walk.start graph app) ⟨needed, []⟩) ∧
    ((∃ e, graph.plan app = .error e) ↔ ∃ e, graph.order = .error e) ∧
    (graph.plan app = .error .circularDependency ↔ graph.order = .error .circularDependency) ∧
    ∀ plan, graph.plan app = .ok plan →
      ∃ ordered, graph.order = .ok ordered ∧ IsPlanFor graph app ordered plan := by
  intro graph
  have horder : InOrder graph.migrations := inOrder_ofList
  obtain ⟨hfails, hcircle⟩ := plan_eq_error_iff horder
  refine ⟨fun _ => mem_ofList_iff, wellFounded_step graph, fun _ => reach_eq_ok_iff, hfails,
    hcircle, ?_⟩
  intro plan hplan
  exact isPlanFor_of_plan horder hplan

end DependencyGraph

end SchemaHistory
