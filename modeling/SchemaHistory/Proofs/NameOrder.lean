import SchemaHistory.Migrator
import Mathlib.Data.List.Sort
import Mathlib.Data.String.Basic

/-!
# The order of migrations

Migrations are worked through in the order of their names. A name begins with the number, so numbers
are in the same order (`number_le_of_name_le`), and a target cuts the list into those within it and
those above it (`takeWhile_isWithin`). Sorting gives one list for any order in which the migrations
are given, as long as no name occurs twice (`mergeSort_eq`, `sorted_eq_ok`).
-/

namespace SchemaHistory

/-- The name begins with a number. -/
def Migration.Numbered (migration : Migration) : Prop :=
  (MigrationName.split? migration.name).isSome

instance (migration : Migration) : Decidable migration.Numbered :=
  inferInstanceAs (Decidable ((MigrationName.split? migration.name).isSome = true))

/-! ### Texts and lists -/

theorem lt_of_take_lt_take {n : Nat} {xs ys : List Char} (h : xs.take n < ys.take n) : xs < ys := by
  induction n generalizing xs ys with
  | zero => exact absurd h (lt_irrefl _)
  | succ n ih =>
      cases ys with
      | nil => exact absurd h (List.not_lt_nil _)
      | cons y ys =>
          cases xs with
          | nil => exact List.nil_lt_cons y ys
          | cons x xs =>
              rw [List.take_succ_cons, List.take_succ_cons, List.cons_lt_cons_iff] at h
              rcases h with hlt | ⟨heq, hlt⟩
              · exact List.cons_lt_cons_iff.mpr (.inl hlt)
              · exact List.cons_lt_cons_iff.mpr (.inr ⟨heq, ih hlt⟩)

/-- Where a condition that holds of one element holds of all before it, it holds of the first
ones. -/
theorem takeWhile_eq_filter {α : Type} {p : α → Bool} {xs : List α}
    (h : xs.Pairwise fun x y => p y → p x) : xs.takeWhile p = xs.filter p := by
  induction xs with
  | nil => rfl
  | cons x xs ih =>
      obtain ⟨hx, hxs⟩ := List.pairwise_cons.mp h
      by_cases hp : p x
      · rw [List.takeWhile_cons_of_pos hp, List.filter_cons_of_pos hp, ih hxs]
      · have hnone : ∀ y ∈ xs, ¬p y := fun y hy hpy => hp (hx y hy hpy)
        rw [List.takeWhile_cons_of_neg hp, List.filter_cons_of_neg hp,
          List.filter_eq_nil_iff.mpr hnone]

/-- Where a property once lost is never regained, dropping the elements with it in front drops them
all. -/
theorem dropWhile_eq_filter {α : Type} {p : α → Bool} {xs : List α}
    (h : xs.Pairwise fun x y => p y → p x) : xs.dropWhile p = xs.filter (!p ·) := by
  induction xs with
  | nil => rfl
  | cons x xs ih =>
      obtain ⟨hx, hxs⟩ := List.pairwise_cons.mp h
      by_cases hp : p x
      · rw [List.dropWhile_cons_of_pos hp, List.filter_cons_of_neg (by simpa using hp), ih hxs]
      · have hall : ∀ y ∈ xs, (!p y) = true := by
          intro y hy
          simpa using fun hpy => hp (hx y hy hpy)
        rw [List.dropWhile_cons_of_neg hp, List.filter_cons_of_pos (by simpa using hp),
          List.filter_eq_self.mpr hall]

namespace Migration

/-! ### Names and numbers -/

variable {a b : Migration}

/-- The number of a numbered migration is the first four characters of its name. -/
theorem number_eq (h : a.Numbered) : a.number = String.ofList (a.name.toList.take 4) := by
  obtain ⟨⟨digits, label⟩, hsplit⟩ := Option.isSome_iff_exists.mp h
  unfold number
  rw [hsplit]
  unfold MigrationName.split? at hsplit
  split at hsplit
  · next c₁ c₂ c₃ c₄ rest hname =>
      split at hsplit
      · cases hsplit
        rw [hname]
        rfl
      · cases hsplit
  · cases hsplit

/-- The order of names is that of numbers. -/
theorem number_le (ha : a.Numbered) (hb : b.Numbered) (h : a.name < b.name) :
    ¬b.number < a.number := by
  intro hnumber
  rw [number_eq ha, number_eq hb, String.lt_iff_toList_lt, String.toList_ofList,
    String.toList_ofList]
    at hnumber
  exact lt_asymm h (String.lt_iff_toList_lt.mpr (lt_of_take_lt_take hnumber))

/-- Names in order have numbers in order. -/
theorem number_le_of_name_le (ha : a.Numbered) (hb : b.Numbered) (h : a.name ≤ b.name) :
    a.number ≤ b.number := by
  rcases h.lt_or_eq with hlt | heq
  · exact not_lt.mp (number_le ha hb hlt)
  · rw [number, number, heq]

/-- Of migrations in ascending order no two have one name. -/
theorem eq_of_name_eq {ordered : List Migration} (hascending : ordered.Pairwise (·.name < ·.name))
    (ha : a ∈ ordered) (hb : b ∈ ordered) (h : a.name = b.name) : a = b := by
  have hnodup : (ordered.map (·.name)).Nodup :=
    List.pairwise_map.mpr (hascending.imp fun hlt => ne_of_lt hlt)
  exact List.inj_on_of_nodup_map hnodup ha hb h

/-! ### Sorting -/

/-- Sorting by name puts names in order. -/
theorem pairwise_sorted (migrations : List Migration) :
    (migrations.mergeSort fun a b => !(b.name < a.name)).Pairwise fun a b => a.name ≤ b.name := by
  have hsorted : (migrations.mergeSort fun a b => !(b.name < a.name)).Pairwise
      fun a b => !(b.name < a.name) := by
    refine List.pairwise_mergeSort (fun a b c hab hbc => ?_) (fun a b => ?_) _
    · simp only [Bool.not_eq_true', decide_eq_false_iff_not, not_lt] at *
      exact hab.trans hbc
    · simp only [Bool.or_eq_true, Bool.not_eq_true', decide_eq_false_iff_not, not_lt]
      exact le_total _ _
  refine hsorted.imp fun hle => ?_
  simpa only [Bool.not_eq_true', decide_eq_false_iff_not, not_lt] using hle

/-- Sorting gives the migrations in ascending order, if there is one. -/
theorem mergeSort_eq {migrations ordered : List Migration} (hperm : ordered.Perm migrations)
    (hascending : ordered.Pairwise (·.name < ·.name)) :
    (migrations.mergeSort fun a b => !(b.name < a.name)) = ordered := by
  -- both lists are sorted and have the same members, of which no two are equally high
  have hmerged := (List.mergeSort_perm migrations fun a b => !(b.name < a.name)).trans hperm.symm
  refine hmerged.eq_of_pairwise (fun a b ha hb hab hba => ?_) (pairwise_sorted migrations)
    (hascending.imp le_of_lt)
  exact eq_of_name_eq hascending (hmerged.mem_iff.mp ha) hb (le_antisymm hab hba)

end Migration

namespace Migrator

variable {app : String} {migrations ordered : List Migration}

/-- Migrations are sorted if all are of the app. -/
theorem sorted_of_apps (happs : ∀ migration ∈ migrations, migration.app = app) :
    sorted app migrations = .ok (migrations.mergeSort fun a b => !(b.name < a.name)) := by
  have hforeign : migrations.find? (·.app ≠ app) = none := by
    rw [List.find?_eq_none]
    intro migration hmem
    simp [happs migration hmem]
  unfold sorted
  rw [hforeign]

/-- Sorting gives the migrations in the order of their names, if all are of the app. -/
theorem sorted_eq_ok (happs : ∀ migration ∈ migrations, migration.app = app)
    (hperm : ordered.Perm migrations) (hascending : ordered.Pairwise (·.name < ·.name)) :
    sorted app migrations = .ok ordered := by
  rw [sorted_of_apps happs, Migration.mergeSort_eq hperm hascending]

theorem numberOfTarget_name {migration : Migration} (h : migration.Numbered) :
    numberOfTarget migration.name = migration.number := by
  obtain ⟨parts, hparts⟩ := Option.isSome_iff_exists.mp h
  rw [numberOfTarget, Migration.number, hparts]

section Target

variable (hnumbered : ∀ migration ∈ ordered, migration.Numbered)

include hnumbered

/-! ### Targets -/

/-- In an order by name the migrations within a target come first. -/
theorem pairwise_isWithin (hsorted : ordered.Pairwise (·.name ≤ ·.name)) (target : Option String) :
    ordered.Pairwise fun a b => isWithin target b → isWithin target a := by
  refine hsorted.imp_of_mem fun ha hb hle hwithin => ?_
  cases target with
  | none => rfl
  | some number =>
      simp only [isWithin, Bool.not_eq_true', decide_eq_false_iff_not, not_lt] at hwithin ⊢
      exact (Migration.number_le_of_name_le (hnumbered _ ha) (hnumbered _ hb) hle).trans hwithin

variable (hascending : ordered.Pairwise (·.name < ·.name))

include hascending

/-- The migrations within a target come before the others. -/
theorem takeWhile_isWithin (target : Option String) :
    ordered.takeWhile (isWithin target) = ordered.filter (isWithin target) :=
  takeWhile_eq_filter (pairwise_isWithin hnumbered (hascending.imp le_of_lt) target)

theorem dropWhile_isWithin (number : String) :
    ordered.dropWhile (isWithin (some number)) = ordered.filter (number < ·.number) := by
  rw [dropWhile_eq_filter (pairwise_isWithin hnumbered (hascending.imp le_of_lt) _)]
  simp [isWithin]

end Target

end Migrator

end SchemaHistory
