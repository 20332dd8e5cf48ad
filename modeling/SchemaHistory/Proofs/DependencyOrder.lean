import SchemaHistory.Proofs.Dependencies
import Mathlib.Data.Finset.Max
import Mathlib.Data.List.Permutation
import Mathlib.Data.Set.Finite.Basic
import Mathlib.Order.WellFounded

/-!
# The order that a graph finds

`DependencyGraph.order` places one migration after the other, at every step the first one all of
whose dependencies are placed. If it comes to a halt before all are placed, each of those that are
left comes after another one that is left, so some migration comes after itself. `order_arranges`
puts together what follows: when there is an order, and which one it is.
-/

namespace SchemaHistory

namespace Migration

variable {migrations placed ordered rest : List Migration} {migration other : Migration}

/-- A migration that can be placed after some others: all that it comes after is among them. -/
def CanFollow (migrations placed : List Migration) (migration : Migration) : Prop :=
  ∀ earlier, ComesAfter migrations migration earlier → earlier ∈ placed

/-- The first one, by app and name, of the migrations that can be placed next. -/
structure IsNext (migrations placed : List Migration) (migration : Migration) : Prop where
  canFollow : CanFollow migrations placed migration
  first : ∀ other ∈ migrations, other ∉ placed → CanFollow migrations placed other →
    other = migration ∨ migration.key.before other.key = true

/-- Each migration of a list can be placed after those before it. -/
def EachFollows (migrations ordered : List Migration) : Prop :=
  ∀ placed migration rest, ordered = placed ++ migration :: rest →
    CanFollow migrations placed migration

/-- Each migration of a list is the next one after those before it. -/
def PlacedInTurn (migrations ordered : List Migration) : Prop :=
  ∀ placed migration rest, ordered = placed ++ migration :: rest →
    IsNext migrations placed migration

theorem PlacedInTurn.eachFollows (h : PlacedInTurn migrations ordered) :
    EachFollows migrations ordered :=
  fun placed migration rest hsplit => (h placed migration rest hsplit).canFollow

theorem PlacedInTurn.nil : PlacedInTurn migrations [] := by
  intro placed migration rest h
  simp at h

/-- One more migration is placed behind those that are placed in turn. -/
theorem PlacedInTurn.concat (h : PlacedInTurn migrations placed)
    (hnext : IsNext migrations placed migration) :
    PlacedInTurn migrations (placed ++ [migration]) := by
  intro before here after heq
  rcases List.eq_nil_or_concat after with rfl | ⟨front, last, rfl⟩
  · obtain ⟨rfl, hhere⟩ := List.append_inj' heq rfl
    obtain rfl := List.singleton_inj.mp hhere
    exact hnext
  · have hsplit : placed ++ [migration] = (before ++ here :: front) ++ [last] := by
      rw [heq, List.concat_eq_append, List.append_assoc, List.cons_append]
    exact h before here front (List.append_inj' hsplit rfl).1

section Distinct

variable (hdistinct : (migrations.map Migration.key).Nodup)

include hdistinct

/-- The closest one of the migrations before a given one in its app. -/
theorem exists_precedes (hother : other ∈ migrations) (happ : other.app = migration.app)
    (hname : other.name < migration.name) :
    ∃ closest ∈ migrations, Precedes migrations closest migration ∧
      (other = closest ∨ other.name < closest.name) := by
  let earlier := migrations.toFinset.filter fun m => m.app = migration.app ∧ m.name < migration.name
  have hmem : ∀ m, m ∈ earlier ↔ m ∈ migrations ∧ m.app = migration.app ∧ m.name < migration.name :=
    fun m => by simp [earlier]
  obtain ⟨closest, hclosest, hmax⟩ := earlier.exists_max_image (·.name)
    ⟨other, (hmem other).mpr ⟨hother, happ, hname⟩⟩
  obtain ⟨hin, happ', hname'⟩ := (hmem closest).mp hclosest
  refine ⟨closest, hin, ⟨happ', hname', fun m hm hmapp hmname => ?_⟩, ?_⟩
  · exact hmax m ((hmem m).mpr ⟨hm, hmapp, hmname⟩)
  · rcases lt_or_eq_of_le (hmax other ((hmem other).mpr ⟨hother, happ, hname⟩)) with hlt | heq
    · exact Or.inr hlt
    · refine Or.inl (List.inj_on_of_nodup_map hdistinct hother hin ?_)
      simp only [key, happ, happ', heq]

/-- All migrations that are before one in its app are placed before it, not only the closest. -/
theorem EachFollows.earlier_mem (h : EachFollows migrations ordered)
    (hsplit : ordered = placed ++ migration :: rest) (hother : other ∈ migrations)
    (happ : other.app = migration.app) (hname : other.name < migration.name) : other ∈ placed := by
  induction hlength : placed.length using Nat.strongRecOn generalizing placed migration rest with
  | _ length ih =>
      obtain ⟨closest, hclosest, hprecedes, heq | hlt⟩ :=
        exists_precedes hdistinct hother happ hname
      · rw [heq]
        exact h placed migration rest hsplit closest ⟨hclosest, Or.inr hprecedes⟩
      · have hin := h placed migration rest hsplit closest ⟨hclosest, Or.inr hprecedes⟩
        obtain ⟨front, back, rfl⟩ := List.append_of_mem hin
        have hsplit' : ordered = front ++ closest :: (back ++ migration :: rest) := by
          rw [hsplit, List.append_assoc, List.cons_append]
        have hshorter : front.length < length := by
          rw [← hlength, List.length_append, List.length_cons]
          omega
        have hfront := ih front.length hshorter hsplit' (happ.trans hprecedes.app_eq.symm) hlt rfl
        exact List.mem_append_left _ hfront

end Distinct

/-! ### Coming to a halt -/

/-- If each of some migrations comes after another one of them, some migration comes after
itself. -/
theorem circular_of_stuck {stuck : List Migration} (hne : stuck ≠ [])
    (hstuck : ∀ migration ∈ stuck, ∃ earlier ∈ stuck, ComesAfter migrations migration earlier) :
    Circular migrations := by
  by_contra hcircular
  let Below (a b : { m // m ∈ stuck }) : Prop := Relation.TransGen (ComesAfter migrations) b.1 a.1
  have hirrefl : Std.Irrefl Below := by
    refine ⟨fun a hself => hcircular ⟨a.1, ?_, hself⟩⟩
    obtain ⟨middle, -, hlast⟩ := Relation.TransGen.tail'_iff.mp hself
    exact hlast.mem
  have htrans : IsTrans _ Below := ⟨fun a b c hab hbc => hbc.trans hab⟩
  have hfinite : Finite { m // m ∈ stuck } := (List.finite_toSet stuck).to_subtype
  obtain ⟨start, hstart⟩ := List.exists_mem_of_ne_nil stuck hne
  -- there is one below which there is none, but it comes after another one
  obtain ⟨⟨lowest, hlowest⟩, -, hmin⟩ :=
    (Finite.wellFounded_of_trans_of_irrefl Below).has_min Set.univ ⟨⟨start, hstart⟩, trivial⟩
  obtain ⟨earlier, hearlier, hafter⟩ := hstuck lowest hlowest
  exact hmin ⟨earlier, hearlier⟩ trivial (Relation.TransGen.single hafter)

/-- Where all migrations can be placed one after the other, none comes after itself. -/
theorem EachFollows.not_circular (h : EachFollows migrations ordered)
    (hall : ∀ migration, migration ∈ ordered ↔ migration ∈ migrations) (hnodup : ordered.Nodup) :
    ¬Circular migrations := by
  have hstep : ∀ {later earlier}, later ∈ ordered → ComesAfter migrations later earlier →
      ordered.idxOf earlier < ordered.idxOf later := by
    intro later earlier hlater hafter
    obtain ⟨placed, rest, hsplit⟩ := List.append_of_mem hlater
    have hearlier := h placed later rest hsplit earlier hafter
    have hnot : later ∉ placed := by
      rw [hsplit] at hnodup
      exact fun hmem => (List.nodup_append.mp hnodup).2.2 later hmem later List.mem_cons_self rfl
    rw [hsplit, List.idxOf_append_of_mem hearlier, List.idxOf_append_of_notMem hnot,
      List.idxOf_cons_self]
    exact List.idxOf_lt_length_of_mem hearlier
  have hsteps : ∀ {later earlier}, later ∈ ordered →
      Relation.TransGen (ComesAfter migrations) later earlier →
      ordered.idxOf earlier < ordered.idxOf later := by
    intro later earlier hlater hsteps
    induction hsteps with
    | single hafter => exact hstep hlater hafter
    | tail hsteps hafter ih =>
        obtain ⟨_, -, hmiddle⟩ := Relation.TransGen.tail'_iff.mp hsteps
        exact (hstep ((hall _).mpr hmiddle.mem) hafter).trans ih
  rintro ⟨migration, hmem, hself⟩
  exact lt_irrefl _ (hsteps ((hall migration).mpr hmem) hself)

end Migration

namespace DependencyGraph

open Migration

variable {graph : DependencyGraph} {migrations placed ordered : List Migration}
  {migration ready : Migration} {waiting others : List Pending} {e : MigrationError}

/-! ### One step -/

/-- What a migration that is pending has been found to come after. -/
def Pending.Found (migrations : List Migration) (pending : Pending) : Prop :=
  ∀ key, key ∈ pending.dependencies ↔
    ∃ earlier, ComesAfter migrations pending.migration earlier ∧ earlier.key = key

/-- Ready is what can follow: all that it comes after is placed. -/
theorem Pending.isReady_iff {pending : Pending} (hfound : pending.Found migrations)
    (hdistinct : (migrations.map Migration.key).Nodup) (hplaced : placed ⊆ migrations) :
    pending.isReady placed = true ↔ CanFollow migrations placed pending.migration := by
  simp only [Pending.isReady, List.all_eq_true, List.any_eq_true, decide_eq_true_eq]
  constructor
  · intro h earlier hafter
    obtain ⟨other, hother, hkey⟩ := h earlier.key ((hfound _).mpr ⟨earlier, hafter, rfl⟩)
    rw [← List.inj_on_of_nodup_map hdistinct (hplaced hother) hafter.mem hkey]
    exact hother
  · intro h key hkey
    obtain ⟨earlier, hafter, hsame⟩ := (hfound key).mp hkey
    exact ⟨earlier, h earlier hafter, hsame⟩

/-- The one that is taken is the first in line that is ready. -/
theorem firstReady?_eq_some (h : firstReady? placed waiting = some (ready, others)) :
    ∃ front pending back, waiting = front ++ pending :: back ∧ others = front ++ back ∧
      pending.migration = ready ∧ pending.isReady placed = true ∧
      ∀ before ∈ front, ¬before.isReady placed = true := by
  induction waiting generalizing others with
  | nil => cases h
  | cons first rest ih =>
      rw [firstReady?] at h
      by_cases hfirst : first.isReady placed = true
      · rw [if_pos hfirst] at h
        cases h
        exact ⟨[], first, rest, rfl, rfl, rfl, hfirst, List.forall_mem_nil _⟩
      · rw [if_neg hfirst] at h
        obtain ⟨⟨found, left⟩, hrest, heq⟩ := Option.map_eq_some_iff.mp h
        cases heq
        obtain ⟨front, pending, back, rfl, rfl, rfl, hready, hnone⟩ := ih hrest
        exact ⟨first :: front, pending, back, rfl, rfl, rfl, hready,
          List.forall_mem_cons.mpr ⟨hfirst, hnone⟩⟩

/-- Where none is taken, none is ready. -/
theorem firstReady?_eq_none (h : firstReady? placed waiting = none) :
    ∀ pending ∈ waiting, ¬pending.isReady placed = true := by
  induction waiting with
  | nil => nofun
  | cons first rest ih =>
      rw [firstReady?] at h
      by_cases hfirst : first.isReady placed = true
      · rw [if_pos hfirst] at h
        cases h
      · rw [if_neg hfirst] at h
        exact List.forall_mem_cons.mpr ⟨hfirst, ih (Option.map_eq_none_iff.mp h)⟩

/-- What holds between the migrations that are placed, last first, and those that are pending. -/
structure Halfway (migrations placed : List Migration) (waiting : List Pending) : Prop where
  perm : (placed.reverse ++ waiting.map (·.migration)).Perm migrations
  inTurn : PlacedInTurn migrations placed.reverse
  inOrder : InOrder (waiting.map (·.migration))
  found : ∀ pending ∈ waiting, pending.Found migrations

section Halfway

variable (hdistinct : (migrations.map Migration.key).Nodup)
  (h : Halfway migrations placed waiting)

include h

/-- Halfway through, every migration is placed or waits. -/
theorem Halfway.mem_iff :
    migration ∈ migrations ↔ migration ∈ placed ∨ migration ∈ waiting.map (·.migration) := by
  rw [← h.perm.mem_iff, List.mem_append, List.mem_reverse]

include hdistinct

theorem Halfway.isReady_iff {pending : Pending} (hpending : pending ∈ waiting) :
    pending.isReady placed = true ↔ CanFollow migrations placed pending.migration :=
  Pending.isReady_iff (h.found pending hpending) hdistinct fun _ hmem => h.mem_iff.mpr (Or.inl hmem)

/-- Placing the first migration that is ready. -/
theorem Halfway.place (hready : firstReady? placed waiting = some (ready, others)) :
    Halfway migrations (ready :: placed) others := by
  obtain ⟨front, pending, back, hwaiting, rfl, rfl, hisReady, hnone⟩ := firstReady?_eq_some hready
  have hpending : pending ∈ waiting := hwaiting ▸ List.mem_append_right _ List.mem_cons_self
  have hcanFollow := (h.isReady_iff hdistinct hpending).mp hisReady
  have hinOrder := h.inOrder
  rw [hwaiting, List.map_append, List.map_cons] at hinOrder
  have hnext : IsNext migrations placed.reverse pending.migration := by
    refine ⟨fun earlier hafter => List.mem_reverse.mpr (hcanFollow earlier hafter), ?_⟩
    intro other hother hnot hfollows
    rw [List.mem_reverse] at hnot
    obtain ⟨p, hp, rfl⟩ := List.mem_map.mp ((h.mem_iff.mp hother).resolve_left hnot)
    have hpReady := (h.isReady_iff hdistinct hp).mpr fun earlier hafter =>
      List.mem_reverse.mp (hfollows earlier hafter)
    rw [hwaiting] at hp
    rcases List.mem_append.mp hp with hp | hp
    · exact absurd hpReady (hnone p hp)
    · rcases List.mem_cons.mp hp with rfl | hp
      · exact Or.inl rfl
      · exact Or.inr (List.rel_of_pairwise_cons (List.pairwise_append.mp hinOrder).2.1
          (List.mem_map_of_mem hp))
  refine ⟨?_, ?_, ?_, ?_⟩
  · have hperm := h.perm
    rw [hwaiting, List.map_append, List.map_cons] at hperm
    rw [List.reverse_cons, List.append_assoc, List.singleton_append, List.map_append]
    exact (List.Perm.append_left _ List.perm_middle.symm).trans hperm
  · rw [List.reverse_cons]
    exact h.inTurn.concat hnext
  · rw [List.map_append]
    exact hinOrder.sublist (List.Sublist.append_left (List.sublist_cons_self _ _) _)
  · intro p hp
    refine h.found p ?_
    rw [hwaiting]
    rcases List.mem_append.mp hp with hp | hp
    · exact List.mem_append_left _ hp
    · exact List.mem_append_right _ (List.mem_cons_of_mem _ hp)

/-- Where none of the pending migrations is ready, they wait for each other. -/
theorem Halfway.circular (hnone : firstReady? placed waiting = none) (hne : waiting ≠ []) :
    Circular migrations := by
  have hsome : waiting.map (·.migration) ≠ [] := by simpa using hne
  refine circular_of_stuck hsome fun migration hmem => ?_
  obtain ⟨pending, hpending, rfl⟩ := List.mem_map.mp hmem
  have hwaits := mt (h.isReady_iff hdistinct hpending).mpr
    (firstReady?_eq_none hnone pending hpending)
  unfold CanFollow at hwaits
  push Not at hwaits
  obtain ⟨earlier, hafter, hnot⟩ := hwaits
  exact ⟨earlier, (h.mem_iff.mp hafter.mem).resolve_left hnot, hafter⟩

end Halfway

/-! ### All steps -/

/-- Placing migrations ends with an order of all of them, or because some migration comes after
itself. -/
theorem arrange_spec (hdistinct : (migrations.map Migration.key).Nodup)
    (h : Halfway migrations placed waiting) :
    match arrange placed waiting with
    | .ok ordered => ordered.Perm migrations ∧ PlacedInTurn migrations ordered
    | .error e => e = .circularDependency ∧ Circular migrations := by
  fun_induction arrange placed waiting with
  | case1 placed waiting ready others hready ih => exact ih (h.place hdistinct hready)
  | case2 placed waiting hnone hempty =>
      obtain rfl := List.isEmpty_iff.mp hempty
      have hperm := h.perm
      rw [List.map_nil, List.append_nil] at hperm
      exact ⟨hperm, h.inTurn⟩
  | case3 placed waiting hnone hempty =>
      exact ⟨rfl, h.circular hdistinct hnone fun heq => hempty (List.isEmpty_iff.mpr heq)⟩

/-- At the beginning all migrations wait, each with what it comes after. -/
theorem pending_eq_ok (hok : graph.pending = .ok waiting) (horder : InOrder graph.migrations) :
    waiting.map (·.migration) = graph.migrations ∧
      ∀ pending ∈ waiting, pending.Found graph.migrations ∧
        ∀ dependency, ¬pending.migration.Lacks graph.migrations dependency := by
  have hall := Except.mapM_eq_ok.mp hok
  have hmade : ∀ {migration pending}, (do
      return ⟨migration, ← graph.dependencies migration⟩ : Except MigrationError Pending)
        = .ok pending →
      pending.migration = migration ∧ graph.dependencies migration = .ok pending.dependencies := by
    intro migration pending h
    obtain ⟨keys, hkeys, h⟩ := Except.bind_eq_ok.mp h
    cases h
    exact ⟨rfl, hkeys⟩
  constructor
  · clear hok
    generalize graph.migrations = migrations at hall
    induction hall with
    | nil => rfl
    | cons hhead _ ih => rw [List.map_cons, ih, (hmade hhead).1]
  · intro pending hpending
    obtain ⟨migration, -, hfound⟩ := Except.exists_of_mem_mapM hok hpending
    obtain ⟨rfl, hkeys⟩ := hmade hfound
    exact ⟨fun key => mem_dependencies horder hkeys, fun _ => not_lacks_of_dependencies hkeys⟩

/-- A graph that lacks a dependency has no beginning. -/
theorem pending_eq_error (herror : graph.pending = .error e) :
    ∃ migration ∈ graph.migrations, ∃ dependency, migration.Lacks graph.migrations dependency ∧
      e = .missingDependency migration.app migration.name dependency.1 dependency.2 := by
  obtain ⟨migration, hmem, hfails⟩ := Except.exists_of_mapM_eq_error herror
  refine ⟨migration, hmem, dependencies_eq_error ?_⟩
  cases hkeys : graph.dependencies migration with
  | ok keys =>
      rw [hkeys] at hfails
      cases hfails
  | error e' =>
      rw [hkeys] at hfails
      cases hfails
      rfl

/-- The three ways in which looking for an order ends. -/
theorem order_cases (horder : InOrder graph.migrations) :
    (∃ migration ∈ graph.migrations, ∃ dependency, migration.Lacks graph.migrations dependency ∧
      graph.order
        = .error (.missingDependency migration.app migration.name dependency.1 dependency.2)) ∨
    (∀ migration ∈ graph.migrations, ∀ dependency, ¬migration.Lacks graph.migrations dependency) ∧
      ((graph.order = .error .circularDependency ∧ Circular graph.migrations) ∨
        ∃ ordered, graph.order = .ok ordered ∧ ordered.Perm graph.migrations ∧
          PlacedInTurn graph.migrations ordered) := by
  cases hpending : graph.pending with
  | error e =>
      obtain ⟨migration, hmem, dependency, hlacks, rfl⟩ := pending_eq_error hpending
      refine Or.inl ⟨migration, hmem, dependency, hlacks, ?_⟩
      unfold order
      rw [hpending]
      rfl
  | ok waiting =>
      obtain ⟨hmap, hfound⟩ := pending_eq_ok hpending horder
      have hbegin : Halfway graph.migrations [] waiting :=
        ⟨by rw [List.reverse_nil, List.nil_append, hmap], PlacedInTurn.nil, hmap ▸ horder,
          fun pending hmem => (hfound pending hmem).1⟩
      have hspec := arrange_spec horder.nodup_keys hbegin
      have hrun : graph.order = arrange [] waiting := by
        unfold order
        rw [hpending]
        rfl
      refine Or.inr ⟨fun migration hmem dependency => ?_, ?_⟩
      · rw [← hmap] at hmem
        obtain ⟨pending, hin, rfl⟩ := List.mem_map.mp hmem
        exact (hfound pending hin).2 dependency
      · rw [hrun]
        cases harrange : arrange [] waiting with
        | ok ordered =>
            rw [harrange] at hspec
            exact Or.inr ⟨ordered, rfl, hspec⟩
        | error e =>
            rw [harrange] at hspec
            exact Or.inl ⟨by rw [hspec.1], hspec.2⟩

/-- An order that is returned has all migrations, placed in turn. -/
theorem placedInTurn_of_order (horder : InOrder graph.migrations)
    (hok : graph.order = .ok ordered) :
    ordered.Perm graph.migrations ∧ PlacedInTurn graph.migrations ordered := by
  rcases order_cases horder with ⟨migration, -, dependency, -, herror⟩ | ⟨-, h⟩
  · rw [hok] at herror
    cases herror
  · rcases h with ⟨herror, -⟩ | ⟨found, hfound, hspec⟩
    · rw [hok] at herror
      cases herror
    · rw [hok] at hfound
      cases hfound
      exact hspec

/-! ### The result -/

/-- All migrations, one after the other: each behind those that it depends on and behind those
before it in its app, and at every place the first one, by app and name, that can be placed
there. -/
structure Arranges (migrations ordered : List Migration) : Prop where
  perm : ordered.Perm migrations
  dependency_mem : ∀ placed migration rest, ordered = placed ++ migration :: rest →
    ∀ dependency ∈ migration.dependencies,
      ∃ earlier ∈ placed, (earlier.app, earlier.name) = dependency
  earlier_mem : ∀ placed migration rest, ordered = placed ++ migration :: rest →
    ∀ other ∈ migrations, other.app = migration.app → other.name < migration.name →
      other ∈ placed
  first : ∀ placed migration rest, ordered = placed ++ migration :: rest →
    ∀ other ∈ rest, CanFollow migrations placed other → migration.key.before other.key = true

/-- What is placed in turn is arranged as it should be. -/
theorem arranges_of_placedInTurn (hdistinct : (migrations.map Migration.key).Nodup)
    (hperm : ordered.Perm migrations) (hturn : PlacedInTurn migrations ordered)
    (hcomplete : ∀ migration ∈ migrations, ∀ dependency, ¬migration.Lacks migrations dependency) :
    Arranges migrations ordered where
  perm := hperm
  dependency_mem placed migration rest hsplit dependency hdependency := by
    have hmem : migration ∈ migrations :=
      hperm.mem_iff.mp (hsplit ▸ List.mem_append_right _ List.mem_cons_self)
    have hfound := hcomplete migration hmem dependency
    simp only [Lacks, not_and, not_forall, not_not, exists_prop] at hfound
    obtain ⟨earlier, hearlier, heq⟩ := hfound hdependency
    refine ⟨earlier, ?_, heq⟩
    exact (hturn placed migration rest hsplit).canFollow earlier
      ⟨hearlier, Or.inl (heq ▸ hdependency)⟩
  earlier_mem placed migration rest hsplit other hother happ hname :=
    hturn.eachFollows.earlier_mem hdistinct hsplit hother happ hname
  first placed migration rest hsplit other hother hfollows := by
    have hnodup : (placed ++ migration :: rest).Nodup := by
      rw [← hsplit]
      exact hperm.nodup_iff.mpr hdistinct.of_map
    obtain ⟨-, hrest, hapart⟩ := List.nodup_append.mp hnodup
    have hmem : other ∈ migrations := hperm.mem_iff.mp
      (hsplit ▸ List.mem_append_right _ (List.mem_cons_of_mem _ hother))
    have hnot : other ∉ placed :=
      fun hin => hapart other hin other (List.mem_cons_of_mem _ hother) rfl
    rcases (hturn placed migration rest hsplit).first other hmem hnot hfollows with rfl | hbefore
    · exact absurd hother (List.nodup_cons.mp hrest).1
    · exact hbefore

/-- The same three ways, for the migrations that were put into the graph. -/
theorem order_ofList_cases (hdistinct : (migrations.map Migration.key).Nodup) :
    (∃ migration ∈ migrations, ∃ dependency, migration.Lacks migrations dependency ∧
      (ofList migrations).order
        = .error (.missingDependency migration.app migration.name dependency.1 dependency.2)) ∨
    (∀ migration ∈ migrations, ∀ dependency, ¬migration.Lacks migrations dependency) ∧
      (((ofList migrations).order = .error .circularDependency ∧ Circular migrations) ∨
        ∃ ordered, (ofList migrations).order = .ok ordered ∧ Arranges migrations ordered ∧
          ¬Circular migrations) := by
  have hperm := perm_ofList hdistinct
  have hsame : ∀ migration, migration ∈ (ofList migrations).migrations ↔ migration ∈ migrations :=
    fun _ => hperm.mem_iff
  have hinOrder : InOrder (ofList migrations).migrations := inOrder_ofList
  rcases order_cases hinOrder with
    ⟨migration, hmem, dependency, hlacks, herror⟩ | ⟨hcomplete, hends⟩
  · rw [lacks_congr hsame] at hlacks
    exact Or.inl ⟨migration, (hsame migration).mp hmem, dependency, hlacks, herror⟩
  · have hcomplete' : ∀ migration ∈ migrations, ∀ dependency,
        ¬migration.Lacks migrations dependency := by
      intro migration hmem dependency
      rw [← lacks_congr hsame]
      exact hcomplete migration ((hsame migration).mpr hmem) dependency
    refine Or.inr ⟨hcomplete', ?_⟩
    rcases hends with ⟨herror, hcircular⟩ | ⟨ordered, hok, hordered, hturn⟩
    · exact Or.inl ⟨herror, (circular_congr hsame).mp hcircular⟩
    · refine Or.inr ⟨ordered, hok, ?_, ?_⟩
      · have hturn' : PlacedInTurn migrations ordered := by
          intro placed migration rest hsplit
          obtain ⟨hfollows, hfirst⟩ := hturn placed migration rest hsplit
          unfold CanFollow at hfollows hfirst
          rw [comesAfter_congr hsame] at hfollows hfirst
          exact ⟨hfollows, fun other hother => hfirst other ((hsame other).mpr hother)⟩
        exact arranges_of_placedInTurn hdistinct (hordered.trans hperm) hturn' hcomplete'
      · rw [← circular_congr hsame]
        have hnodup := hordered.nodup_iff.mpr inOrder_ofList.nodup_keys.of_map
        exact hturn.eachFollows.not_circular (fun _ => hordered.mem_iff) hnodup

/-- Take any migrations, no two with the same app and name. Looking for their order fails for a
missing dependency exactly where a migration depends on one that is not there, and names such a
pair. Otherwise it fails for a circle exactly where some migration comes, in the end, after itself.
Otherwise it finds an order, which `Arranges` the migrations. In which order they were put into the
graph does not matter. -/
theorem order_arranges {migrations : List Migration}
    (hdistinct : (migrations.map Migration.key).Nodup) :
    let order := (ofList migrations).order
    let lacking := ∃ migration ∈ migrations, ∃ dependency, migration.Lacks migrations dependency
    ((∃ app name dependencyApp dependencyName,
        order = .error (.missingDependency app name dependencyApp dependencyName)) ↔ lacking) ∧
    (∀ app name dependencyApp dependencyName,
      order = .error (.missingDependency app name dependencyApp dependencyName) →
      ∃ migration ∈ migrations, migration.app = app ∧ migration.name = name ∧
        migration.Lacks migrations (dependencyApp, dependencyName)) ∧
    (order = .error .circularDependency ↔ ¬lacking ∧ Circular migrations) ∧
    ((∃ ordered, order = .ok ordered) ↔ ¬lacking ∧ ¬Circular migrations) ∧
    (∀ ordered, order = .ok ordered → Arranges migrations ordered) ∧
    ∀ added, added.Perm migrations → (ofList added).order = order := by
  intro order lacking
  have hadded : ∀ added, added.Perm migrations → (ofList added).order = order :=
    fun added hperm => congrArg DependencyGraph.order (ofList_eq_of_perm hdistinct hperm)
  rcases order_ofList_cases hdistinct with
    ⟨migration, hmem, dependency, hlacks, horder⟩ | ⟨hcomplete, ⟨horder, hcircular⟩ |
      ⟨ordered, horder, harranges, hcircular⟩⟩
  · have horder : order = _ := horder
    have hlacking : lacking := ⟨migration, hmem, dependency, hlacks⟩
    rw [horder]
    refine ⟨⟨fun _ => hlacking, fun _ => ⟨_, _, _, _, rfl⟩⟩, ?_, ⟨nofun, ?_⟩, ⟨nofun, ?_⟩, nofun,
      horder ▸ hadded⟩
    · intro app name dependencyApp dependencyName heq
      cases heq
      exact ⟨migration, hmem, rfl, rfl, hlacks⟩
    · exact fun h => absurd hlacking h.1
    · exact fun h => absurd hlacking h.1
  · have horder : order = _ := horder
    have hlacking : ¬lacking := by
      rintro ⟨migration, hmem, dependency, hlacks⟩
      exact hcomplete migration hmem dependency hlacks
    rw [horder]
    refine ⟨⟨nofun, fun h => absurd h hlacking⟩, nofun,
      ⟨fun _ => ⟨hlacking, hcircular⟩, fun _ => rfl⟩, ⟨nofun, fun h => absurd hcircular h.2⟩, nofun,
      horder ▸ hadded⟩
  · have horder : order = _ := horder
    have hlacking : ¬lacking := by
      rintro ⟨migration, hmem, dependency, hlacks⟩
      exact hcomplete migration hmem dependency hlacks
    rw [horder]
    refine ⟨⟨nofun, fun h => absurd h hlacking⟩, nofun, ⟨nofun, fun h => absurd h.2 hcircular⟩,
      ⟨fun _ => ⟨hlacking, hcircular⟩, fun _ => ⟨ordered, rfl⟩⟩, ?_, horder ▸ hadded⟩
    intro found hfound
    cases hfound
    exact harranges

/-! ### Two apps that need each other's migrations -/

/-- The second migration of one app needs the first of another, which needs the first of the one. -/
def interleaved : List Migration := [
  { app := "main", name := "0002_auto", dependencies := [("auth", "0001_initial")] },
  { app := "main", name := "0001_initial" },
  { app := "auth", name := "0001_initial", dependencies := [("main", "0001_initial")] }]

/-- The migrations of the two apps are placed in turn. -/
theorem interleaved_arranged : ∃ ordered, (ofList interleaved).order = .ok ordered ∧
    Arranges interleaved ordered ∧
    ordered.map (fun migration => (migration.app, migration.name))
      = [("main", "0001_initial"), ("auth", "0001_initial"), ("main", "0002_auto")] := by
  have hdistinct : (interleaved.map Migration.key).Nodup := by decide
  obtain ⟨-, -, -, -, harranges, -⟩ := order_arranges hdistinct
  have horder : ∃ ordered, (ofList interleaved).order = .ok ordered ∧
      ordered.map (fun migration => (migration.app, migration.name))
        = [("main", "0001_initial"), ("auth", "0001_initial"), ("main", "0002_auto")] :=
    ⟨_, by cbv, by decide⟩
  obtain ⟨ordered, hok, hkeys⟩ := horder
  exact ⟨ordered, hok, harranges ordered hok, hkeys⟩

end DependencyGraph

end SchemaHistory
