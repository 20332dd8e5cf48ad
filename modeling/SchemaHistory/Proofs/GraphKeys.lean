import SchemaHistory.DependencyGraph
import SchemaHistory.Proofs.Sessions
import Mathlib.Data.List.Sort
import Mathlib.Data.String.Basic

/-!
# The migrations of a graph

A graph holds its migrations in the order of their keys, the app before the name. Migrations of
different keys are all in the graph that they are added to, and which was added first does not
matter (`ofList_eq_of_perm`): two lists in order with the same elements are one
(`InOrder.eq_of_perm`). The migrations of one app stand in the graph in ascending order
(`ascending_ofApp`), so the one before a given migration is well determined.
-/

namespace SchemaHistory

namespace MigrationKey

variable {a b c : MigrationKey}

/-- Migrations are ordered by app and then by name. -/
theorem before_iff : a.before b = true ↔ a.app < b.app ∨ a.app = b.app ∧ a.name < b.name := by
  simp [before]

theorem not_before_self : ¬a.before a = true := by
  simp [before_iff]

theorem before_trans (hab : a.before b = true) (hbc : b.before c = true) :
    a.before c = true := by
  rw [before_iff] at *
  rcases hab with hab | ⟨happ, hab⟩
  · rcases hbc with hbc | ⟨happ', -⟩
    · exact Or.inl (hab.trans hbc)
    · exact Or.inl (happ' ▸ hab)
  · rcases hbc with hbc | ⟨happ', hbc⟩
    · exact Or.inl (happ ▸ hbc)
    · exact Or.inr ⟨happ.trans happ', hab.trans hbc⟩

theorem before_asymm (hab : a.before b = true) : ¬b.before a = true :=
  fun hba => not_before_self (before_trans hab hba)

/-- Of two keys one is before the other. -/
theorem before_of_not_before (hab : ¬a.before b = true) (hne : a ≠ b) : b.before a = true := by
  obtain ⟨app, name⟩ := a
  obtain ⟨app', name'⟩ := b
  simp only [before_iff, not_or, not_and, not_lt] at *
  rcases lt_or_eq_of_le hab.1 with happ | rfl
  · exact Or.inl happ
  · have hname := hab.2 rfl
    refine Or.inr ⟨rfl, lt_of_le_of_ne hname ?_⟩
    rintro rfl
    exact hne rfl

end MigrationKey

namespace DependencyGraph

variable {graph : DependencyGraph} {app : String} {key : MigrationKey}
  {migration other : Migration} {migrations added : List Migration}

/-- Migrations in the order of their keys, no two of which are the same. -/
def InOrder (migrations : List Migration) : Prop :=
  migrations.Pairwise fun a b => a.key.before b.key = true

theorem InOrder.nodup_keys (h : InOrder migrations) : (migrations.map Migration.key).Nodup := by
  refine List.pairwise_map.mpr (h.imp fun hbefore heq => ?_)
  rw [heq] at hbefore
  exact MigrationKey.not_before_self hbefore

/-- In a graph there is one migration of a key. -/
theorem InOrder.eq_of_key_eq (h : InOrder migrations) (hm : migration ∈ migrations)
    (ho : other ∈ migrations) (hkey : migration.key = other.key) : migration = other :=
  List.inj_on_of_nodup_map h.nodup_keys hm ho hkey

/-- A list is in order in one way only. -/
theorem InOrder.eq_of_perm (h : InOrder migrations) (hadded : InOrder added)
    (hperm : migrations.Perm added) : migrations = added :=
  hperm.eq_of_pairwise
    (fun _ _ _ _ hab hba => absurd hba (MigrationKey.before_asymm hab)) h hadded

/-! ### Adding migrations -/

/-- Placing a migration replaces the one with its key. -/
theorem mem_place (h : InOrder migrations) : other ∈ place migration migrations ↔
    other = migration ∨ other ∈ migrations ∧ other.key ≠ migration.key := by
  induction migrations with
  | nil => simp [place]
  | cons first rest ih =>
      obtain ⟨hfirst, hrest⟩ := List.pairwise_cons.mp h
      rw [place]
      by_cases hbefore : migration.key.before first.key = true
      · -- the new key is before all others, so it is none of them
        rw [if_pos hbefore, List.mem_cons]
        have hdifferent : ∀ other ∈ first :: rest, other.key ≠ migration.key := by
          intro other hmem heq
          rcases List.mem_cons.mp hmem with rfl | hmem
          · exact MigrationKey.not_before_self (heq ▸ hbefore)
          · exact MigrationKey.before_asymm (hfirst other hmem) (heq ▸ hbefore)
        refine or_congr_right ⟨fun hmem => ⟨hmem, hdifferent other hmem⟩, And.left⟩
      · rw [if_neg hbefore]
        by_cases hsame : migration.key = first.key
        · rw [if_pos hsame, List.mem_cons, List.mem_cons]
          refine or_congr_right ⟨fun hmem => ⟨Or.inr hmem, fun heq => ?_⟩, ?_⟩
          · exact MigrationKey.not_before_self (heq.trans hsame ▸ hfirst other hmem)
          · rintro ⟨rfl | hmem, hne⟩
            · exact absurd hsame.symm hne
            · exact hmem
        · rw [if_neg hsame, List.mem_cons, List.mem_cons, ih hrest]
          constructor
          · rintro (rfl | rfl | ⟨hmem, hne⟩)
            · exact Or.inr ⟨Or.inl rfl, Ne.symm hsame⟩
            · exact Or.inl rfl
            · exact Or.inr ⟨Or.inr hmem, hne⟩
          · rintro (rfl | ⟨rfl | hmem, hne⟩)
            · exact Or.inr (Or.inl rfl)
            · exact Or.inl rfl
            · exact Or.inr (Or.inr ⟨hmem, hne⟩)

theorem InOrder.place (h : InOrder migrations) : InOrder (place migration migrations) := by
  induction migrations with
  | nil => exact List.pairwise_singleton _ _
  | cons first rest ih =>
      obtain ⟨hfirst, hrest⟩ := List.pairwise_cons.mp h
      rw [DependencyGraph.place]
      by_cases hbefore : migration.key.before first.key = true
      · rw [if_pos hbefore]
        refine List.pairwise_cons.mpr ⟨fun other hmem => ?_, h⟩
        rcases List.mem_cons.mp hmem with rfl | hmem
        · exact hbefore
        · exact MigrationKey.before_trans hbefore (hfirst other hmem)
      · rw [if_neg hbefore]
        by_cases hsame : migration.key = first.key
        · rw [if_pos hsame]
          refine List.pairwise_cons.mpr ⟨fun other hmem => ?_, hrest⟩
          rw [hsame]
          exact hfirst other hmem
        · rw [if_neg hsame]
          refine List.pairwise_cons.mpr ⟨fun other hmem => ?_, ih hrest⟩
          rcases (mem_place hrest).mp hmem with rfl | ⟨hmem, -⟩
          · exact MigrationKey.before_of_not_before hbefore hsame
          · exact hfirst other hmem

theorem inOrder_foldl_add (h : InOrder graph.migrations) :
    InOrder (added.foldl add graph).migrations := by
  induction added generalizing graph with
  | nil => exact h
  | cons first rest ih => exact ih h.place

/-- However a graph is built, its migrations are in order. -/
theorem inOrder_ofList : InOrder (ofList migrations).migrations :=
  inOrder_foldl_add List.Pairwise.nil

theorem mem_foldl_add (h : InOrder graph.migrations) (hadded : (added.map Migration.key).Nodup)
    (hfresh : ∀ migration ∈ added, ∀ other ∈ graph.migrations, other.key ≠ migration.key) :
    migration ∈ (added.foldl add graph).migrations ↔
      migration ∈ graph.migrations ∨ migration ∈ added := by
  induction added generalizing graph with
  | nil => simp
  | cons first rest ih =>
      obtain ⟨hfirst, hrest⟩ := List.nodup_cons.mp hadded
      obtain ⟨hfreshFirst, hfreshRest⟩ := List.forall_mem_cons.mp hfresh
      have hplaced : InOrder (graph.add first).migrations := h.place
      have hmem : ∀ other, other ∈ (graph.add first).migrations ↔
          other = first ∨ other ∈ graph.migrations := by
        intro other
        refine (mem_place h).trans (or_congr_right ⟨And.left, fun hmem => ⟨hmem, ?_⟩⟩)
        exact hfreshFirst other hmem
      have hfreshPlaced : ∀ migration ∈ rest, ∀ other ∈ (graph.add first).migrations,
          other.key ≠ migration.key := by
        intro next hnext other hother
        rcases (hmem other).mp hother with rfl | hother
        · intro heq
          exact hfirst (heq ▸ List.mem_map_of_mem hnext)
        · exact hfreshRest next hnext other hother
      rw [List.foldl_cons, ih hplaced hrest hfreshPlaced, hmem, List.mem_cons]
      tauto

section Distinct

variable (hdistinct : (migrations.map Migration.key).Nodup)

include hdistinct

/-- A graph built from migrations with different keys has all of them. -/
theorem mem_ofList : migration ∈ (ofList migrations).migrations ↔ migration ∈ migrations := by
  have hempty : InOrder ({} : DependencyGraph).migrations := List.Pairwise.nil
  exact (mem_foldl_add hempty hdistinct fun _ _ => nofun).trans (or_iff_right nofun)

theorem perm_ofList : (ofList migrations).migrations.Perm migrations :=
  (List.perm_ext_iff_of_nodup inOrder_ofList.nodup_keys.of_map hdistinct.of_map).mpr
    fun _ => mem_ofList hdistinct

/-- The order in which migrations are added does not matter. -/
theorem ofList_eq_of_perm (hperm : added.Perm migrations) : ofList added = ofList migrations := by
  have hadded : (added.map Migration.key).Nodup :=
    (hperm.map Migration.key).nodup_iff.mpr hdistinct
  have hsame : (ofList added).migrations = (ofList migrations).migrations :=
    inOrder_ofList.eq_of_perm inOrder_ofList
      ((perm_ofList hadded).trans (hperm.trans (perm_ofList hdistinct).symm))
  exact congrArg DependencyGraph.mk hsame

end Distinct

/-! ### Looking up a key -/

theorem contains_iff : graph.contains key = true ↔ ∃ other ∈ graph.migrations, other.key = key := by
  unfold contains get?
  rw [List.find?_isSome]
  simp

/-- The migrations of an app are in the order of their names. -/
theorem ascending_ofApp (h : InOrder graph.migrations) :
    (graph.ofApp app).Pairwise (·.name < ·.name) := by
  refine (h.filter _).imp_of_mem fun {a b} ha hb hbefore => ?_
  have happ : a.app = app := by simpa using (List.mem_filter.mp ha).2
  have happ' : b.app = app := by simpa using (List.mem_filter.mp hb).2
  rcases MigrationKey.before_iff.mp hbefore with hlt | ⟨-, hlt⟩
  · have hlt : a.app < b.app := hlt
    rw [happ, happ'] at hlt
    exact absurd hlt (lt_irrefl _)
  · exact hlt

theorem mem_ofApp :
    migration ∈ graph.ofApp app ↔ migration ∈ graph.migrations ∧ migration.app = app := by
  simp [ofApp, List.mem_filter]

end DependencyGraph

end SchemaHistory
