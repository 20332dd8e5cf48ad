import SchemaHistory.Named
import Mathlib.Data.List.Basic

/-!
# Looking things up by name

What `get?` finds after `insert`, `set` and `erase`, and the order of names that `insert` keeps.
Lookups after a change hold of any list. What lies in a list is only what is found in it where no
name occurs twice, which `Ordered` gives for the lists that are built by `insert`.

Lists in order are equal as soon as the same is found in them (`Ordered.ext`). That is how states
are compared: models and indexes are kept in the order of their names, fields in the order of their
declaration.
-/

namespace SchemaHistory.Named

variable {α : Type} {name other : String} {a b : α} {things : Named α}

/-! ### Lookups -/

@[simp] theorem get?_nil : get? name ([] : Named α) = none := rfl

theorem get?_cons (entry : String × α) :
    get? name (entry :: things) = if entry.1 = name then some entry.2 else get? name things := rfl

@[simp] theorem names_nil : names ([] : Named α) = [] := rfl

@[simp] theorem names_cons (entry : String × α) :
    names (entry :: things) = entry.1 :: names things := rfl

@[simp] theorem names_append (more : Named α) :
    names (things ++ more) = names things ++ names more := by
  simp [names]

/-- Nothing is found under a name that does not occur. -/
theorem get?_eq_none_iff : get? name things = none ↔ name ∉ names things := by
  induction things with
  | nil => simp
  | cons entry rest ih =>
      rw [get?_cons]
      by_cases h : entry.1 = name
      · simp [h]
      · simp [h, ih, Ne.symm h]

theorem mem_names_iff : name ∈ names things ↔ ∃ a, get? name things = some a := by
  rw [← not_iff_not, ← get?_eq_none_iff, Option.eq_none_iff_forall_ne_some]
  simp

theorem has_eq_true_iff : has name things = true ↔ ∃ a, get? name things = some a := by
  rw [has, Option.isSome_iff_exists]

theorem has_eq_false_iff : has name things = false ↔ get? name things = none := by
  rw [has, Option.isSome_eq_false_iff, Option.isNone_iff_eq_none]

theorem mem_of_get? (h : get? name things = some a) : (name, a) ∈ things := by
  induction things with
  | nil => cases h
  | cons entry rest ih =>
      rw [get?_cons] at h
      split at h
      · next hname =>
          cases h
          subst hname
          exact List.mem_cons_self
      · exact List.mem_cons_of_mem _ (ih h)

/-- With different names every entry is found under its own. -/
theorem get?_of_mem (hnames : (names things).Nodup) (h : (name, a) ∈ things) :
    get? name things = some a := by
  induction things with
  | nil => cases h
  | cons entry rest ih =>
      obtain ⟨hnot, hrest⟩ := List.nodup_cons.mp hnames
      rcases List.mem_cons.mp h with rfl | h
      · rw [get?_cons, if_pos rfl]
      · have hne : entry.1 ≠ name := by
          rintro rfl
          exact hnot (List.mem_map.mpr ⟨_, h, rfl⟩)
        rw [get?_cons, if_neg hne, ih hrest h]

/-- What is found by each of some names is determined by the names. -/
theorem eq_of_names_eq {xs ys : Named α} (hnames : names xs = names ys)
    (hxs : ∀ entry ∈ xs, get? entry.1 things = some entry.2)
    (hys : ∀ entry ∈ ys, get? entry.1 things = some entry.2) : xs = ys := by
  induction xs generalizing ys with
  | nil => exact (List.map_eq_nil_iff.mp hnames.symm).symm
  | cons x xs ih =>
      cases ys with
      | nil => cases hnames
      | cons y ys =>
          rw [names_cons, names_cons, List.cons.injEq] at hnames
          obtain ⟨hx, hxs⟩ := List.forall_mem_cons.mp hxs
          obtain ⟨hy, hys⟩ := List.forall_mem_cons.mp hys
          rw [← hnames.1, hx, Option.some.injEq] at hy
          rw [ih hnames.2 hxs hys, Prod.ext hnames.1 hy]

/-! ### Lookups after a change -/

/-- Inserting changes what is found under that name only. -/
theorem get?_insert : get? other (insert name a things)
    = if name = other then some a else get? other things := by
  induction things with
  | nil => rfl
  | cons entry rest ih =>
      obtain ⟨n, b⟩ := entry
      rw [insert]
      -- the new pair goes in front of the head, in its place, or behind it
      split
      · rw [get?_cons]
      · split
        · next hn =>
            subst hn
            simp only [get?_cons]
            split <;> rfl
        · next hn =>
            rw [get?_cons, ih, get?_cons]
            by_cases hother : n = other
            · subst hother
              rw [if_pos rfl, if_pos rfl, if_neg (Ne.symm hn)]
            · rw [if_neg hother, if_neg hother]

theorem get?_insert_self : get? name (insert name a things) = some a := by
  rw [get?_insert, if_pos rfl]

theorem get?_insert_ne (h : name ≠ other) :
    get? other (insert name a things) = get? other things := by
  rw [get?_insert, if_neg h]

theorem mem_names_insert :
    other ∈ names (insert name a things) ↔ other = name ∨ other ∈ names things := by
  rw [mem_names_iff, mem_names_iff, get?_insert]
  split
  · next h => simp [h]
  · next h => simp [Ne.symm h]

/-- What is found among the kept entries is what is found, if it is kept. -/
theorem get?_filter (keep : String × α → Bool) (hnames : (names things).Nodup) :
    get? name (things.filter keep) = (get? name things).filter fun a => keep (name, a) := by
  induction things with
  | nil => rfl
  | cons entry rest ih =>
      obtain ⟨n, b⟩ := entry
      obtain ⟨hnot, hrest⟩ := List.nodup_cons.mp hnames
      rw [get?_cons]
      by_cases hn : n = name
      · subst hn
        rw [if_pos rfl]
        -- what is dropped must not uncover a pair of the same name further on
        have hnone : get? n (rest.filter keep) = none := by
          rw [ih hrest, get?_eq_none_iff.mpr hnot]
          rfl
        cases hkeep : keep (n, b) with
        | true => simp [hkeep, get?_cons, Option.filter]
        | false => simp [hkeep, hnone, Option.filter]
      · cases hkeep : keep (n, b) with
        | true => simp [hkeep, get?_cons, hn, ih hrest]
        | false => simp [hkeep, hn, ih hrest]

/-- Erasing takes one name away and leaves the others. -/
theorem get?_erase : get? other (erase name things)
    = if name = other then none else get? other things := by
  induction things with
  | nil => simp [erase]
  | cons entry rest ih =>
      rw [erase] at ih ⊢
      rw [List.filter_cons]
      by_cases hentry : entry.1 = name
      · rw [if_neg (by simp [hentry]), ih, get?_cons, hentry]
        split <;> rfl
      · rw [if_pos (by simp [hentry]), get?_cons, get?_cons, ih]
        by_cases hother : name = other
        · subst hother
          rw [if_neg hentry, if_pos rfl, if_pos rfl]
        · rw [if_neg hother, if_neg hother]

/-- Keeping names keeps what goes by them. -/
theorem get?_filter_names (keep : String → Bool) :
    get? name (things.filter fun entry => keep entry.1)
      = if keep name then get? name things else none := by
  induction things with
  | nil => simp
  | cons entry rest ih =>
      rw [List.filter_cons, get?_cons]
      by_cases hname : entry.1 = name
      · subst hname
        cases hkeep : keep entry.1 with
        | true => simp [get?_cons]
        | false => simpa [hkeep] using ih
      · cases keep entry.1 with
        | true => simpa [get?_cons, hname] using ih
        | false => simpa [hname] using ih

/-- The first of two lists is looked up first. -/
theorem get?_append {more : Named α} :
    get? name (things ++ more) = (get? name things).or (get? name more) := by
  induction things with
  | nil => rfl
  | cons entry rest ih =>
      rw [List.cons_append, get?_cons, get?_cons, ih]
      split <;> rfl

theorem mem_names_filter (keep : String → Bool) :
    name ∈ names (things.filter fun entry => keep entry.1) ↔ name ∈ names things ∧ keep name := by
  simp only [names, List.mem_map, List.mem_filter]
  constructor
  · rintro ⟨entry, ⟨hentry, hkeep⟩, rfl⟩
    exact ⟨⟨entry, hentry, rfl⟩, hkeep⟩
  · rintro ⟨⟨entry, hentry, rfl⟩, hkeep⟩
    exact ⟨entry, ⟨hentry, hkeep⟩, rfl⟩

/-- A new name goes to the end. -/
theorem set_of_get?_eq_none (h : get? name things = none) :
    set name a things = things ++ [(name, a)] := by
  induction things with
  | nil => rfl
  | cons entry rest ih =>
      rw [get?_cons] at h
      split at h
      · cases h
      · next hn => rw [set, if_neg hn, ih h, List.cons_append]

theorem get?_set_self : get? name (set name a things) = some a := by
  induction things with
  | nil => exact if_pos rfl
  | cons entry rest ih =>
      rw [set]
      split
      · next hn => exact if_pos hn
      · next hn => rw [get?_cons, if_neg hn, ih]

theorem mem_set {entry : String × α} (h : entry ∈ things.set name a) :
    entry = (name, a) ∨ entry ∈ things := by
  induction things with
  | nil => exact Or.inl (List.mem_singleton.mp h)
  | cons first rest ih =>
      rw [set] at h
      split at h
      · next hname =>
          rw [hname] at h
          exact (List.mem_cons.mp h).imp_right (List.mem_cons_of_mem _)
      · rcases List.mem_cons.mp h with rfl | h
        · exact Or.inr List.mem_cons_self
        · exact (ih h).imp_right (List.mem_cons_of_mem _)

theorem mem_names_set :
    other ∈ (things.set name a).names ↔ other = name ∨ other ∈ things.names := by
  induction things with
  | nil => simp [set]
  | cons entry rest ih =>
      rw [set]
      split
      · next hname => simp [hname]
      · simp [ih, or_left_comm]

theorem nodup_names_set (h : things.names.Nodup) : (things.set name a).names.Nodup := by
  induction things with
  | nil => simp [set]
  | cons entry rest ih =>
      obtain ⟨hnot, hrest⟩ := List.nodup_cons.mp h
      rw [set]
      split
      · exact h
      · next hne =>
          refine List.nodup_cons.mpr ⟨fun hmem => ?_, ih hrest⟩
          rcases mem_names_set.mp hmem with heq | hmem
          · exact hne heq
          · exact hnot hmem

theorem names_erase : names (erase name things) = (names things).filter (· ≠ name) := by
  rw [erase, names, names, List.filter_map]
  rfl

/-- Erasing a name that does not occur changes nothing. -/
theorem erase_of_get?_eq_none (h : get? name things = none) : erase name things = things := by
  rw [erase, List.filter_eq_self]
  intro entry hentry
  have hnot := get?_eq_none_iff.mp h
  simp only [decide_not, Bool.not_eq_eq_eq_not, Bool.not_true, decide_eq_false_iff_not]
  rintro rfl
  exact hnot (List.mem_map.mpr ⟨entry, hentry, rfl⟩)

/-- What is taken out one after the other is taken out together. -/
theorem filter_erase {names : List String} :
    (erase name things).filter (fun entry => decide (entry.1 ∉ names))
      = things.filter fun entry => decide (entry.1 ∉ name :: names) := by
  rw [erase, List.filter_filter]
  apply List.filter_congr
  intro entry _
  by_cases hname : entry.1 = name <;> simp [hname]

/-! ### The order of names -/

/-- The names go up, so none occurs twice. -/
def Ordered (things : Named α) : Prop := things.Pairwise fun x y => x.1 < y.1

theorem ordered_nil : Ordered ([] : Named α) := List.Pairwise.nil

theorem Ordered.nodup_names (h : Ordered things) : (names things).Nodup := by
  rw [names, List.nodup_iff_pairwise_ne, List.pairwise_map]
  exact h.imp fun hlt => String.ne_of_lt hlt

theorem Ordered.erase (h : Ordered things) : Ordered (erase name things) :=
  List.Pairwise.filter _ h

theorem mem_insert {entry : String × α} (h : entry ∈ insert name a things) :
    entry = (name, a) ∨ entry ∈ things := by
  induction things with
  | nil => exact Or.inl (List.mem_singleton.mp h)
  | cons head rest ih =>
      rw [insert] at h
      split at h
      · exact List.mem_cons.mp h
      · split at h
        · next hn =>
            subst hn
            rcases List.mem_cons.mp h with h | h
            · exact Or.inl h
            · exact Or.inr (List.mem_cons_of_mem _ h)
        · rcases List.mem_cons.mp h with h | h
          · exact Or.inr (h ▸ List.mem_cons_self)
          · rcases ih h with h | h
            · exact Or.inl h
            · exact Or.inr (List.mem_cons_of_mem _ h)

/-- Inserting keeps the order by name. -/
theorem Ordered.insert (h : Ordered things) : Ordered (insert name a things) := by
  induction things with
  | nil => exact List.pairwise_singleton _ _
  | cons head rest ih =>
      obtain ⟨hhead, hrest⟩ := List.pairwise_cons.mp h
      rw [Named.insert]
      split
      · next hlt =>
          refine List.pairwise_cons.mpr ⟨fun entry hentry => ?_, h⟩
          rcases List.mem_cons.mp hentry with rfl | hentry
          · exact hlt
          · exact String.lt_trans hlt (hhead entry hentry)
      · next hnot =>
          split
          · next hn =>
              subst hn
              exact List.pairwise_cons.mpr ⟨hhead, hrest⟩
          · next hn =>
              -- the head is below the name, and so below all that is inserted behind it
              have hlt : head.1 < name := by
                by_contra hge
                exact hn (String.le_antisymm (String.not_lt.mp hnot) (String.not_lt.mp hge))
              refine List.pairwise_cons.mpr ⟨fun entry hentry => ?_, ih hrest⟩
              rcases mem_insert hentry with rfl | hentry
              · exact hlt
              · exact hhead entry hentry

/-- A new name is all that is new. -/
theorem insert_perm (h : get? name things = none) :
    (Named.insert name a things).Perm ((name, a) :: things) := by
  induction things with
  | nil => exact List.Perm.refl _
  | cons head rest ih =>
      obtain ⟨n, b⟩ := head
      rw [get?_cons] at h
      rw [Named.insert]
      split
      · exact List.Perm.refl _
      · split
        · next hn =>
            rw [if_pos hn] at h
            cases h
        · next hn =>
            rw [if_neg hn] at h
            exact ((ih h).cons (n, b)).trans (List.Perm.swap _ _ _)

/-- Giving a name the thing it has changes nothing. -/
theorem Ordered.insert_get? (h : Ordered things) (hget : get? name things = some a) :
    Named.insert name a things = things := by
  induction things with
  | nil => cases hget
  | cons head rest ih =>
      obtain ⟨hhead, hrest⟩ := List.pairwise_cons.mp h
      rw [get?_cons] at hget
      rw [Named.insert]
      split at hget
      · next hn =>
          cases hget
          subst hn
          rw [if_neg (String.lt_irrefl _), if_pos rfl]
      · next hn =>
          have hlt : head.1 < name := hhead _ (mem_of_get? hget)
          rw [if_neg (String.lt_asymm hlt), if_neg hn, ih hrest hget]

/-- Of two things given to one name, the later one counts. -/
theorem insert_insert : insert name b (insert name a things) = insert name b things := by
  induction things with
  | nil => simp [insert]
  | cons head rest ih =>
      rw [insert, insert]
      split
      · simp [insert]
      · next hnot =>
          split
          · next hn => rw [insert, if_neg hnot, if_pos hn]
          · next hn => rw [insert, if_neg hnot, if_neg hn, ih]

theorem erase_insert : erase name (insert name a things) = erase name things := by
  induction things with
  | nil => simp [insert, erase]
  | cons head rest ih =>
      rw [insert]
      split
      · simp [erase]
      · split
        · next hn => simp [erase, hn]
        · next hn =>
            simp only [erase] at ih ⊢
            rw [List.filter_cons, List.filter_cons, ih]

/-- What was taken out of the list goes back to its place. -/
theorem Ordered.insert_erase (h : Ordered things) (hget : get? name things = some a) :
    Named.insert name a (Named.erase name things) = things := by
  induction things with
  | nil => cases hget
  | cons head rest ih =>
      obtain ⟨hhead, hrest⟩ := List.pairwise_cons.mp h
      obtain ⟨n, b⟩ := head
      rw [get?_cons] at hget
      split at hget
      · next hn =>
          cases hget
          obtain rfl : n = name := hn
          -- no other pair has the name, so taking it out leaves the rest as it is
          have hnone : get? n rest = none := by
            rw [get?_eq_none_iff]
            intro hmem
            obtain ⟨entry, hentry, hname⟩ := List.mem_map.mp hmem
            exact String.lt_irrefl n (hname ▸ hhead entry hentry)
          have herase : Named.erase n ((n, b) :: rest) = rest := by
            have hkeep := erase_of_get?_eq_none hnone
            rw [Named.erase] at hkeep ⊢
            rw [List.filter_cons, if_neg (by simp), hkeep]
          rw [herase]
          cases rest with
          | nil => rfl
          | cons next rest =>
              rw [Named.insert, if_pos (hhead next List.mem_cons_self)]
      · next hn =>
          have hlt : n < name := hhead _ (mem_of_get? hget)
          have herase : Named.erase name ((n, b) :: rest) = (n, b) :: Named.erase name rest := by
            rw [Named.erase, Named.erase, List.filter_cons, if_pos (by simpa using hn)]
          rw [herase, Named.insert, if_neg (String.lt_asymm hlt), if_neg hn, ih hrest hget]

def insertAll (more things : Named α) : Named α :=
  more.foldl (fun done entry => done.insert entry.1 entry.2) things

/-- What is inserted later is found first. -/
theorem get?_insertAll {more : Named α} (hnames : more.names.Nodup) :
    get? name (insertAll more things) = (get? name more).or (get? name things) := by
  induction more generalizing things with
  | nil => rfl
  | cons entry rest ih =>
      obtain ⟨hnot, hrest⟩ := List.nodup_cons.mp hnames
      rw [insertAll, List.foldl_cons, ← insertAll, ih hrest, get?_insert, get?_cons]
      by_cases h : entry.1 = name
      · -- the name of the head does not occur again, so nothing overwrites its thing
        rw [if_pos h, if_pos h, get?_eq_none_iff.mpr (h ▸ hnot)]
        rfl
      · rw [if_neg h, if_neg h]

theorem mem_names_insertAll {more : Named α} :
    name ∈ (insertAll more things).names ↔ name ∈ more.names ∨ name ∈ things.names := by
  induction more generalizing things with
  | nil => simp [insertAll]
  | cons entry rest ih =>
      rw [insertAll, List.foldl_cons, ← insertAll, ih, mem_names_insert, names_cons, List.mem_cons]
      tauto

theorem Ordered.insertAll {more : Named α} (h : Ordered things) :
    Ordered (insertAll more things) := by
  induction more generalizing things with
  | nil => exact h
  | cons entry rest ih => exact ih h.insert

/-- A list in the order of names is determined by what is found in it. -/
theorem Ordered.ext {xs ys : Named α} (hxs : Ordered xs) (hys : Ordered ys)
    (h : ∀ name, get? name xs = get? name ys) : xs = ys := by
  have hmem : ∀ entry, entry ∈ xs ↔ entry ∈ ys := by
    intro entry
    constructor
    · intro hentry
      exact mem_of_get? (h _ ▸ get?_of_mem hxs.nodup_names hentry)
    · intro hentry
      exact mem_of_get? ((h _).symm ▸ get?_of_mem hys.nodup_names hentry)
  have hnodup : ∀ {zs : Named α}, Ordered zs → zs.Nodup := fun hzs =>
    List.Pairwise.imp (fun hlt heq => String.ne_of_lt hlt (congrArg Prod.fst heq)) hzs
  have hperm : xs.Perm ys :=
    (List.perm_ext_iff_of_nodup (hnodup hxs) (hnodup hys)).mpr hmem
  refine hperm.eq_of_pairwise (fun x y _ _ hlt hgt => ?_) hxs hys
  exact absurd hgt (String.lt_asymm hlt)

end SchemaHistory.Named
