import SchemaHistory.Operation.Execution
import Mathlib.Data.List.Forall2

/-!
# What an action that succeeds has done

Sessions, works, runs and changes are one kind of action: they have a state and may fail, and the
state is kept in both cases. The lemmas on `.ok` take an action that succeeded apart into the
actions it is made of.

For an action on a database, `Backend.Runs` is the list of statements that were carried out, none of
them refused. It says what an action did without saying how it is written.
-/

namespace SchemaHistory

variable {ε ε' σ α β : Type}

/-! ### Taking an action apart -/

/-- Two actions succeed exactly if the first does and then the second. -/
theorem bind_eq_ok {x : EStateM ε σ α} {f : α → EStateM ε σ β} {s t : σ} {b : β} :
    (x >>= f) s = .ok b t ↔ ∃ a u, x s = .ok a u ∧ f a u = .ok b t := by
  show EStateM.bind x f s = _ ↔ _
  unfold EStateM.bind
  cases h : x s with
  | ok a u =>
      constructor
      · intro hf
        exact ⟨a, u, rfl, hf⟩
      · rintro ⟨a', u', hx, hf⟩
        cases hx
        exact hf
  | error e u => simp

theorem bind_eq_error {x : EStateM ε σ α} {f : α → EStateM ε σ β} {s t : σ} {e : ε} :
    (x >>= f) s = .error e t ↔
      x s = .error e t ∨ ∃ a u, x s = .ok a u ∧ f a u = .error e t := by
  show EStateM.bind x f s = _ ↔ _
  unfold EStateM.bind
  cases h : x s with
  | ok a u =>
      constructor
      · intro hf
        exact Or.inr ⟨a, u, rfl, hf⟩
      · rintro (hx | ⟨a', u', hx, hf⟩)
        · cases hx
        · cases hx
          exact hf
  | error e u => simp

@[simp] theorem pure_eq_ok {a b : α} {s t : σ} :
    (pure a : EStateM ε σ α) s = .ok b t ↔ a = b ∧ s = t := by
  show EStateM.Result.ok a s = _ ↔ _
  simp

@[simp] theorem pure_ne_error {a : α} {s t : σ} {e : ε} :
    (pure a : EStateM ε σ α) s ≠ .error e t :=
  nofun

@[simp] theorem throw_ne_ok {e : ε} {a : α} {s t : σ} :
    (throw e : EStateM ε σ α) s ≠ .ok a t :=
  nofun

@[simp] theorem throw_eq_error {e e' : ε} {s t : σ} :
    (throw e : EStateM ε σ α) s = .error e' t ↔ e = e' ∧ s = t := by
  show EStateM.Result.error e s = _ ↔ _
  simp

/-- Wrapping errors does not touch success. -/
theorem adaptExcept_eq_ok {wrap : ε → ε'} {x : EStateM ε σ α} {s t : σ} {a : α} :
    EStateM.adaptExcept wrap x s = .ok a t ↔ x s = .ok a t := by
  unfold EStateM.adaptExcept
  cases x s <;> simp

/-- An error is wrapped where there is one. -/
theorem adaptExcept_eq_error {wrap : ε → ε'} {x : EStateM ε σ α} {s t : σ} {e' : ε'} :
    EStateM.adaptExcept wrap x s = .error e' t ↔ ∃ e, x s = .error e t ∧ e' = wrap e := by
  unfold EStateM.adaptExcept
  cases h : x s with
  | ok a u => simp
  | error e u =>
      constructor
      · intro he
        cases he
        exact ⟨e, rfl, rfl⟩
      · rintro ⟨e', he, rfl⟩
        cases he
        rfl

theorem Session.ofExcept_eq_ok {r : Except SchemaError α} {s t : σ} {a : α} :
    Session.ofExcept r s = .ok a t ↔ r = .ok a ∧ s = t := by
  cases r <;> simp [Session.ofExcept]

theorem Session.toWork_eq_ok {session : Session σ α} {s t : σ} {a : α} :
    session.toWork s = .ok a t ↔ session s = .ok a t :=
  adaptExcept_eq_ok

theorem Work.ofExcept_eq_ok {r : Except MigrationError α} {s t : σ} {a : α} :
    Work.ofExcept r s = .ok a t ↔ r = .ok a ∧ s = t := by
  cases r <;> simp [Work.ofExcept]

theorem forM_cons_eq_ok {f : α → EStateM ε σ Unit} {x : α} {xs : List α} {s t : σ} :
    (x :: xs).forM f s = .ok () t ↔ ∃ u, f x s = .ok () u ∧ xs.forM f u = .ok () t := by
  show (f x >>= fun _ => xs.forM f) s = _ ↔ _
  rw [bind_eq_ok]
  constructor
  · rintro ⟨⟨⟩, u, hx, hxs⟩
    exact ⟨u, hx, hxs⟩
  · rintro ⟨u, hx, hxs⟩
    exact ⟨(), u, hx, hxs⟩

theorem forM_nil_eq_ok {f : α → EStateM ε σ Unit} {s t : σ} :
    ([] : List α).forM f s = .ok () t ↔ s = t := by
  show (pure () : EStateM ε σ Unit) s = _ ↔ _
  simp

/-- A loop over two lists is one loop and then the other. -/
theorem forM_append_eq_ok {f : α → EStateM ε σ Unit} {xs ys : List α} {s t : σ} :
    (xs ++ ys).forM f s = .ok () t ↔ ∃ u, xs.forM f s = .ok () u ∧ ys.forM f u = .ok () t := by
  induction xs generalizing s with
  | nil =>
      constructor
      · intro h
        exact ⟨s, forM_nil_eq_ok.mpr rfl, h⟩
      · rintro ⟨u, hnil, h⟩
        rw [← forM_nil_eq_ok.mp hnil] at h
        exact h
  | cons x xs ih =>
      rw [List.cons_append, forM_cons_eq_ok]
      constructor
      · rintro ⟨u, hx, h⟩
        obtain ⟨v, hxs, hys⟩ := ih.mp h
        exact ⟨v, forM_cons_eq_ok.mpr ⟨u, hx, hxs⟩, hys⟩
      · rintro ⟨v, hxxs, hys⟩
        obtain ⟨u, hx, hxs⟩ := forM_cons_eq_ok.mp hxxs
        exact ⟨u, hx, ih.mpr ⟨v, hxs, hys⟩⟩

/-- A loop that fails has failed at one of its rounds. -/
theorem exists_of_forM_eq_error {f : α → EStateM ε σ Unit} {xs : List α} {s t : σ} {e : ε}
    (h : xs.forM f s = .error e t) : ∃ x ∈ xs, ∃ u, f x u = .error e t := by
  induction xs generalizing s with
  | nil => exact absurd h pure_ne_error
  | cons x xs ih =>
      rcases bind_eq_error.mp h with hx | ⟨⟨⟩, u, -, hxs⟩
      · exact ⟨x, List.mem_cons_self, s, hx⟩
      · obtain ⟨y, hy, hfails⟩ := ih hxs
        exact ⟨y, List.mem_cons_of_mem _ hy, hfails⟩

/-- In a loop that succeeds each round has succeeded. -/
theorem exists_of_forM_eq_ok {f : α → EStateM ε σ Unit} {xs : List α} {s t : σ}
    (h : xs.forM f s = .ok () t) : ∀ x ∈ xs, ∃ u v, f x u = .ok () v := by
  induction xs generalizing s with
  | nil => exact nofun
  | cons x xs ih =>
      obtain ⟨u, hx, hxs⟩ := forM_cons_eq_ok.mp h
      exact List.forall_mem_cons.mpr ⟨⟨s, u, hx⟩, ih hxs⟩

/-! ### The same for answers without a state -/

theorem Except.bind_eq_ok {x : Except ε α} {f : α → Except ε β} {b : β} :
    (x >>= f) = .ok b ↔ ∃ a, x = .ok a ∧ f a = .ok b := by
  cases x <;> simp [bind, Except.bind]

theorem Except.mapError_eq_ok {x : Except ε α} {wrap : ε → ε'} {a : α} :
    x.mapError wrap = .ok a ↔ x = .ok a := by
  cases x <;> simp [Except.mapError]

/-- Something is computed for each element exactly if it is for all. -/
theorem Except.mapM_eq_ok {f : α → Except ε β} {xs : List α} {ys : List β} :
    xs.mapM f = .ok ys ↔ List.Forall₂ (fun x y => f x = .ok y) xs ys := by
  induction xs generalizing ys with
  | nil => cases ys <;> simp [pure, Except.pure]
  | cons x xs ih =>
      rw [List.mapM_cons]
      constructor
      · intro h
        obtain ⟨y, hy, h⟩ := Except.bind_eq_ok.mp h
        obtain ⟨zs, hzs, h⟩ := Except.bind_eq_ok.mp h
        cases h
        exact List.Forall₂.cons hy (ih.mp hzs)
      · intro h
        cases h with
        | cons hy hzs =>
            rw [hy, ih.mpr hzs]
            rfl

theorem exists_of_mem_right {R : α → β → Prop} {xs : List α} {ys : List β}
    (h : List.Forall₂ R xs ys) {y : β} (hmem : y ∈ ys) : ∃ x ∈ xs, R x y := by
  induction h with
  | nil => cases hmem
  | @cons x y' xs ys hx _ ih =>
      rcases List.mem_cons.mp hmem with rfl | hmem
      · exact ⟨x, List.mem_cons_self, hx⟩
      · obtain ⟨x', hx', hfound⟩ := ih hmem
        exact ⟨x', List.mem_cons_of_mem _ hx', hfound⟩

theorem Except.exists_of_mem_mapM {f : α → Except ε β} {xs : List α} {ys : List β}
    (h : xs.mapM f = .ok ys) {y : β} (hmem : y ∈ ys) : ∃ x ∈ xs, f x = .ok y :=
  exists_of_mem_right (Except.mapM_eq_ok.mp h) hmem

theorem Except.exists_mem_of_mapM {f : α → Except ε β} {xs : List α} {ys : List β}
    (h : xs.mapM f = .ok ys) {x : α} (hmem : x ∈ xs) : ∃ y ∈ ys, f x = .ok y :=
  exists_of_mem_right (Except.mapM_eq_ok.mp h).flip hmem

/-- A loop over a list that fails has failed at one of its members. -/
theorem Except.exists_of_mapM_eq_error {f : α → Except ε β} {xs : List α} {e : ε}
    (h : xs.mapM f = .error e) : ∃ x ∈ xs, f x = .error e := by
  induction xs with
  | nil => cases h
  | cons x xs ih =>
      rw [List.mapM_cons] at h
      cases hx : f x with
      | error e' =>
          rw [hx] at h
          cases h
          exact ⟨x, List.mem_cons_self, hx⟩
      | ok y =>
          rw [hx] at h
          cases hxs : xs.mapM f with
          | error e' =>
              rw [hxs] at h
              cases h
              obtain ⟨x', hx', hfails⟩ := ih hxs
              exact ⟨x', List.mem_cons_of_mem _ hx', hfails⟩
          | ok ys =>
              rw [hxs] at h
              cases h

/-! ### The same for optional answers -/

theorem Option.mapM_eq_some {f : α → Option β} {xs : List α} {ys : List β} :
    xs.mapM f = some ys ↔ List.Forall₂ (fun x y => f x = some y) xs ys := by
  induction xs generalizing ys with
  | nil => cases ys <;> simp [pure]
  | cons x xs ih =>
      rw [List.mapM_cons]
      constructor
      · intro h
        obtain ⟨y, hy, h⟩ := Option.bind_eq_some_iff.mp h
        obtain ⟨zs, hzs, h⟩ := Option.bind_eq_some_iff.mp h
        cases h
        exact .cons hy (ih.mp hzs)
      · intro h
        cases h with
        | cons hy hzs =>
            rw [hy, ih.mpr hzs]
            rfl

theorem Option.exists_of_mem_mapM {f : α → Option β} {xs : List α} {ys : List β}
    (h : xs.mapM f = some ys) {y : β} (hmem : y ∈ ys) : ∃ x ∈ xs, f x = some y :=
  exists_of_mem_right (Option.mapM_eq_some.mp h) hmem

/-- What is written item by item is read item by item. -/
theorem mapM_map_eq_pure {m : Type → Type} [Monad m] [LawfulMonad m] {write : α → β}
    {read : β → m α} {xs : List α} (h : ∀ x ∈ xs, read (write x) = pure x) :
    (xs.map write).mapM read = pure xs := by
  induction xs with
  | nil => exact List.mapM_nil
  | cons x rest ih =>
      obtain ⟨hx, hrest⟩ := List.forall_mem_cons.mp h
      rw [List.map_cons, List.mapM_cons, hx, pure_bind, ih hrest, pure_bind]

/-! ### Statements carried out -/

/-- The statements are carried out one after the other, and none of them is refused. -/
inductive Backend.Runs (backend : Backend σ) : List Statement → σ → σ → Prop where
  | nil (s : σ) : Runs backend [] s s
  | cons {statement : Statement} {rest : List Statement} {s t u : σ} (count : Nat) :
      backend.execute statement s = .ok count t → Runs backend rest t u →
      Runs backend (statement :: rest) s u

namespace Backend

variable {backend : Backend σ} {statement : Statement} {first rest : List Statement} {s t u : σ}

/-- Scripts run one after the other. -/
theorem Runs.append (hfirst : backend.Runs first s t) (hrest : backend.Runs rest t u) :
    backend.Runs (first ++ rest) s u := by
  induction hfirst with
  | nil => exact hrest
  | cons count hexecute _ ih => exact Runs.cons count hexecute (ih hrest)

theorem Runs.of_execute {count : Nat} (h : backend.execute statement s = .ok count t) :
    backend.Runs [statement] s t :=
  Runs.cons count h (Runs.nil t)

theorem Runs.of_run (h : backend.run statement s = .ok () t) : backend.Runs [statement] s t := by
  obtain ⟨count, u, hexecute, h⟩ := bind_eq_ok.mp h
  obtain ⟨-, rfl⟩ := pure_eq_ok.mp h
  exact Runs.of_execute hexecute

/-- A loop over actions that run one statement each. -/
theorem Runs.of_forM {f : α → Session σ Unit} {P : α → Statement → Prop} {xs : List α}
    (hf : ∀ x s t, f x s = .ok () t → ∃ statement, P x statement ∧ backend.Runs [statement] s t)
    (h : xs.forM f s = .ok () t) :
    ∃ statements, List.Forall₂ P xs statements ∧ backend.Runs statements s t := by
  induction xs generalizing s with
  | nil =>
      obtain rfl := forM_nil_eq_ok.mp h
      exact ⟨[], List.Forall₂.nil, Runs.nil s⟩
  | cons x xs ih =>
      obtain ⟨u, hx, hxs⟩ := forM_cons_eq_ok.mp h
      obtain ⟨statement, hP, hrun⟩ := hf x s u hx
      obtain ⟨statements, hPs, hruns⟩ := ih hxs
      exact ⟨statement :: statements, List.Forall₂.cons hP hPs, hrun.append hruns⟩

end Backend

end SchemaHistory
