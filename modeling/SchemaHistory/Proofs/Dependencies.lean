import SchemaHistory.Proofs.GraphKeys
import Mathlib.Logic.Relation

/-!
# What a migration comes after

A migration comes after those that it depends on and after the one that precedes it in its app.
`Migration.ComesAfter` says so of a set of migrations, whatever the order in which they are listed,
and `mem_dependencies` says that a graph finds exactly these.

Two things can be wrong with a set of migrations. One of them may depend on something that is not
there (`Migration.Lacks`), which is an error wherever it is met. Or some of them come after
themselves in the end (`Circular`), which leaves no first one among them. Neither mentions the way
in which an order is looked for.
-/

namespace SchemaHistory

namespace Migration

/-! ### Without any graph -/

variable {migrations others : List Migration} {migration earlier later : Migration}

/-- A migration is the one before another in its app: no name of the app lies between the two. -/
structure Precedes (migrations : List Migration) (earlier later : Migration) : Prop where
  app_eq : earlier.app = later.app
  name_lt : earlier.name < later.name
  none_between : ∀ other ∈ migrations, other.app = later.app → other.name < later.name →
    other.name ≤ earlier.name

/-- What a migration declares that it depends on, and the one before it in its app. -/
def ComesAfter (migrations : List Migration) (later earlier : Migration) : Prop :=
  earlier ∈ migrations ∧
    ((earlier.app, earlier.name) ∈ later.dependencies ∨ Precedes migrations earlier later)

/-- A migration depends on one that is not among the migrations. -/
def Lacks (migrations : List Migration) (migration : Migration) (dependency : String × String) :
    Prop :=
  dependency ∈ migration.dependencies ∧
    ∀ other ∈ migrations, (other.app, other.name) ≠ dependency

/-- Some migration comes, in the end, after itself. -/
def Circular (migrations : List Migration) : Prop :=
  ∃ migration ∈ migrations, Relation.TransGen (ComesAfter migrations) migration migration

theorem ComesAfter.mem (h : ComesAfter migrations later earlier) : earlier ∈ migrations := h.1

section Members

variable (hsame : ∀ migration, migration ∈ migrations ↔ migration ∈ others)

include hsame

/-- What comes before what depends on which migrations there are, not on their order. -/
theorem precedes_congr : Precedes migrations earlier later ↔ Precedes others earlier later := by
  constructor
  · rintro ⟨happ, hname, hnone⟩
    exact ⟨happ, hname, fun other hother => hnone other ((hsame other).mpr hother)⟩
  · rintro ⟨happ, hname, hnone⟩
    exact ⟨happ, hname, fun other hother => hnone other ((hsame other).mp hother)⟩

theorem comesAfter_congr : ComesAfter migrations = ComesAfter others := by
  funext later earlier
  exact propext (and_congr (hsame earlier) (or_congr_right (precedes_congr hsame)))

theorem lacks_congr : Lacks migrations = Lacks others := by
  funext migration dependency
  refine propext (and_congr_right fun _ => ?_)
  exact forall_congr' fun other => imp_congr_left (hsame other)

theorem circular_congr : Circular migrations ↔ Circular others := by
  unfold Circular
  rw [comesAfter_congr hsame]
  exact exists_congr fun migration => and_congr_left fun _ => hsame migration

end Members

end Migration

namespace MigrationKey

/-! ### Keys in order -/

variable {key other : MigrationKey} {keys : List MigrationKey}

theorem mem_insert : other ∈ insert key keys ↔ other = key ∨ other ∈ keys := by
  induction keys with
  | nil => simp [insert]
  | cons first rest ih =>
      rw [insert]
      split
      · simp
      · split
        · next heq => simp [heq]
        · rw [List.mem_cons, ih, List.mem_cons]
          tauto

/-- Keys that are inserted one by one are all there in the end. -/
theorem mem_foldl_insert {start : List MigrationKey} :
    other ∈ keys.foldl (fun keys key => key.insert keys) start ↔
      other ∈ start ∨ other ∈ keys := by
  induction keys generalizing start with
  | nil => simp
  | cons first rest ih =>
      rw [List.foldl_cons, ih, mem_insert, List.mem_cons]
      tauto

end MigrationKey

namespace DependencyGraph

/-! ### What a graph finds -/

variable {graph : DependencyGraph} {key : MigrationKey} {keys : List MigrationKey}
  {migration : Migration} {dependency : String × String} {e : MigrationError}

/-- The migration before another one is the last whose key is before, if that is of the same app. -/
theorem previous?_eq_some_iff (h : InOrder graph.migrations) :
    graph.previous? migration = some key ↔
      ∃ earlier ∈ graph.migrations, earlier.Precedes graph.migrations migration ∧
        earlier.key = key := by
  have hbefore : ∀ {other}, other ∈ graph.migrations.filter (·.key.before migration.key) ↔
      other ∈ graph.migrations ∧
        (other.app < migration.app ∨ other.app = migration.app ∧ other.name < migration.name) := by
    intro other
    rw [List.mem_filter, MigrationKey.before_iff]
    rfl
  unfold previous?
  cases hlast : (graph.migrations.filter (·.key.before migration.key)).getLast? with
  | none =>
      rw [List.getLast?_eq_none_iff] at hlast
      constructor
      · nofun
      · rintro ⟨earlier, hearlier, hprecedes, -⟩
        have hmem := hbefore.mpr ⟨hearlier, Or.inr ⟨hprecedes.app_eq, hprecedes.name_lt⟩⟩
        rw [hlast] at hmem
        cases hmem
  | some last =>
      obtain ⟨front, hfront⟩ := List.getLast?_eq_some_iff.mp hlast
      obtain ⟨hlastMem, hlastBefore⟩ := hbefore.mp (hfront ▸ List.mem_concat_self)
      -- every other one whose key is before is before the last
      have hothers : ∀ other ∈ graph.migrations,
          (other.app < migration.app ∨ other.app = migration.app ∧ other.name < migration.name) →
          other = last ∨ other.key.before last.key = true := by
        intro other hother hlt
        have hmem := hbefore.mpr ⟨hother, hlt⟩
        have hordered := h.filter (·.key.before migration.key)
        rw [hfront] at hmem hordered
        rcases List.mem_append.mp hmem with hmem | hmem
        · exact Or.inr ((List.pairwise_append.mp hordered).2.2 other hmem last
            (List.mem_singleton_self _))
        · exact Or.inl (List.mem_singleton.mp hmem)
      dsimp only
      by_cases happ : last.app = migration.app
      · have hname : last.name < migration.name := by
          rcases hlastBefore with hlt | ⟨-, hlt⟩
          · exact absurd (happ ▸ hlt) (lt_irrefl _)
          · exact hlt
        have hprecedes : last.Precedes graph.migrations migration := by
          refine ⟨happ, hname, fun other hother happ' hlt => ?_⟩
          rcases hothers other hother (Or.inr ⟨happ', hlt⟩) with rfl | hkey
          · exact le_refl _
          · rcases MigrationKey.before_iff.mp hkey with hlt | ⟨-, hlt⟩
            · exact absurd hlt (by simp [Migration.key, happ, happ'])
            · exact le_of_lt hlt
        rw [if_pos happ, Option.some.injEq]
        constructor
        · rintro rfl
          exact ⟨last, hlastMem, hprecedes, rfl⟩
        · rintro ⟨earlier, hearlier, hearlierPrecedes, rfl⟩
          have hle := hearlierPrecedes.none_between last hlastMem happ hname
          have hge := hprecedes.none_between earlier hearlier hearlierPrecedes.app_eq
            hearlierPrecedes.name_lt
          have hname : last.name = earlier.name := le_antisymm hle hge
          simp only [Migration.key, hname, happ, hearlierPrecedes.app_eq]
      · rw [if_neg happ]
        constructor
        · nofun
        · rintro ⟨earlier, hearlier, hprecedes, -⟩
          -- the last one is of an app before, and so is everything before it
          have hlt : last.app < migration.app := hlastBefore.resolve_right fun hsame => happ hsame.1
          rcases hothers earlier hearlier (Or.inr ⟨hprecedes.app_eq, hprecedes.name_lt⟩)
            with rfl | hkey
          · exact absurd hprecedes.app_eq happ
          · rcases MigrationKey.before_iff.mp hkey with hkey | ⟨hkey, -⟩
            · have hkey : earlier.app < last.app := hkey
              rw [hprecedes.app_eq] at hkey
              exact absurd (hkey.trans hlt) (lt_irrefl _)
            · exact absurd (hkey.symm.trans hprecedes.app_eq) happ

/-- A dependency is accepted exactly if the graph has it. -/
theorem declared_eq_ok : graph.declared migration dependency = .ok key ↔
    key = ⟨dependency.1, dependency.2⟩ ∧ ∃ other ∈ graph.migrations, other.key = key := by
  unfold declared
  dsimp only
  by_cases hcontains : graph.contains ⟨dependency.1, dependency.2⟩ = true
  · rw [if_pos hcontains, Except.ok.injEq]
    constructor
    · rintro rfl
      exact ⟨rfl, contains_iff.mp hcontains⟩
    · exact fun h => h.1.symm
  · rw [if_neg hcontains]
    constructor
    · nofun
    · rintro ⟨rfl, h⟩
      exact absurd (contains_iff.mpr h) hcontains

theorem declared_eq_error (h : graph.declared migration dependency = .error e) :
    (∀ other ∈ graph.migrations, (other.app, other.name) ≠ dependency) ∧
      e = .missingDependency migration.app migration.name dependency.1 dependency.2 := by
  unfold declared at h
  dsimp only at h
  split at h
  · cases h
  · next hcontains =>
      cases h
      refine ⟨fun other hother heq => hcontains (contains_iff.mpr ⟨other, hother, ?_⟩), rfl⟩
      rw [← heq]
      rfl

/-- What a graph finds that a migration comes after. -/
theorem mem_dependencies (h : InOrder graph.migrations)
    (hok : graph.dependencies migration = .ok keys) :
    key ∈ keys ↔ ∃ earlier, migration.ComesAfter graph.migrations earlier ∧ earlier.key = key := by
  obtain ⟨declared, hdeclared, hok⟩ := Except.bind_eq_ok.mp hok
  cases hok
  rw [MigrationKey.mem_foldl_insert, Option.mem_toList, previous?_eq_some_iff h]
  constructor
  · rintro (⟨earlier, hearlier, hprecedes, hkey⟩ | hmem)
    · exact ⟨earlier, ⟨hearlier, Or.inr hprecedes⟩, hkey⟩
    · obtain ⟨dependency, hdependency, hfound⟩ := Except.exists_of_mem_mapM hdeclared hmem
      obtain ⟨rfl, other, hother, hkey⟩ := declared_eq_ok.mp hfound
      have hsame : (other.app, other.name) = dependency := by
        obtain ⟨app, name⟩ := dependency
        obtain ⟨rfl, rfl⟩ := MigrationKey.mk.inj hkey
        rfl
      exact ⟨other, ⟨hother, Or.inl (hsame ▸ hdependency)⟩, hkey⟩
  · rintro ⟨earlier, ⟨hearlier, hdependency | hprecedes⟩, rfl⟩
    · right
      obtain ⟨key, hmem, hfound⟩ := Except.exists_mem_of_mapM hdeclared hdependency
      obtain ⟨rfl, -⟩ := declared_eq_ok.mp hfound
      exact hmem
    · exact Or.inl ⟨earlier, hearlier, hprecedes, rfl⟩

theorem dependencies_eq_error (h : graph.dependencies migration = .error e) :
    ∃ dependency, migration.Lacks graph.migrations dependency ∧
      e = .missingDependency migration.app migration.name dependency.1 dependency.2 := by
  unfold dependencies at h
  cases hdeclared : migration.dependencies.mapM (graph.declared migration) with
  | ok declared =>
      rw [hdeclared] at h
      cases h
  | error e' =>
      rw [hdeclared] at h
      cases h
      obtain ⟨dependency, hmem, hfails⟩ := Except.exists_of_mapM_eq_error hdeclared
      obtain ⟨hmissing, rfl⟩ := declared_eq_error hfails
      exact ⟨dependency, ⟨hmem, hmissing⟩, rfl⟩

/-- Where the dependencies of a migration are found, it lacks none. -/
theorem not_lacks_of_dependencies (hok : graph.dependencies migration = .ok keys) :
    ¬migration.Lacks graph.migrations dependency := by
  rintro ⟨hmem, hmissing⟩
  obtain ⟨declared, hdeclared, -⟩ := Except.bind_eq_ok.mp hok
  obtain ⟨key, -, hfound⟩ := Except.exists_mem_of_mapM hdeclared hmem
  obtain ⟨rfl, other, hother, hkey⟩ := declared_eq_ok.mp hfound
  obtain ⟨happ, hname⟩ := MigrationKey.mk.inj hkey
  exact hmissing other hother (Prod.ext happ hname)

end DependencyGraph

end SchemaHistory
