import SchemaHistory.Lookup

/-!
# The grammar of predicates

`Grammar.Reads` is the grammar of SQL for the predicates that conditions are written as, level by
level: a comparison binds tighter than `NOT`, `NOT` tighter than `AND` and `AND` tighter than `OR`,
and what stands to the left is joined first. `Grammar.read` reads tokens by it, from left to right
and with a stack of what is still to be completed. The two say the same
(`Grammar.read_eq_some_iff`), so there is never more than one way to read a predicate.
-/

namespace SchemaHistory

/-- A predicate over the columns of a row. The value that a column is compared with is the argument
with the given number. -/
inductive Predicate where
  | compare (column : String) (comparison : Comparison) (argument : Nat)
  | not (inner : Predicate)
  | and (left right : Predicate)
  | or (left right : Predicate)
deriving DecidableEq

namespace Grammar

/-- What the text of a predicate is made of. A placeholder has the number of its argument, if one is
written. -/
inductive Token where
  | name (text : String)
  | operator (comparison : Comparison)
  | placeholder (number : Option Nat)
  | not
  | and
  | or
  | opening
  | closing
deriving DecidableEq

/-- How tight a predicate binds, from the loosest. -/
inductive Level where
  | disjunction
  | conjunction
  | negation

/-- What some tokens can be read as at a level. -/
inductive Reads : Level → List Token → Predicate → Prop where
  | compare (column : String) (comparison : Comparison) (argument : Nat) :
      Reads .negation [.name column, .operator comparison, .placeholder (some argument)]
        (.compare column comparison argument)
  | group {ts : List Token} {p : Predicate} :
      Reads .disjunction ts p → Reads .negation (.opening :: (ts ++ [.closing])) p
  | not {ts : List Token} {p : Predicate} : Reads .negation ts p →
    Reads .negation (.not :: ts) (.not p)
  | ofNegation {ts : List Token} {p : Predicate} : Reads .negation ts p → Reads .conjunction ts p
  | and {ts us : List Token} {p q : Predicate} :
      Reads .conjunction ts p → Reads .negation us q →
        Reads .conjunction (ts ++ .and :: us) (.and p q)
  | ofConjunction {ts : List Token} {p : Predicate} : Reads .conjunction ts p →
    Reads .disjunction ts p
  | or {ts us : List Token} {p q : Predicate} :
      Reads .disjunction ts p → Reads .conjunction us q →
        Reads .disjunction (ts ++ .or :: us) (.or p q)

/-! ### A reader -/

/-- Something that has been begun and is to be completed by a predicate. -/
inductive Frame where
  | not
  | and (left : Predicate)
  | or (left : Predicate)
  | group

/-- Completes what binds tighter than `AND`. -/
def closeNot : List Frame → Predicate → List Frame × Predicate
  | .not :: stack, p => closeNot stack (.not p)
  | stack, p => (stack, p)

/-- Completes what binds tighter than `OR`. -/
def closeAnd (stack : List Frame) (p : Predicate) : List Frame × Predicate :=
  match closeNot stack p with
  | (.and left :: stack, p) => (stack, .and left p)
  | done => done

/-- Completes all that is inside of the innermost group. -/
def closeOr (stack : List Frame) (p : Predicate) : List Frame × Predicate :=
  match closeAnd stack p with
  | (.or left :: stack, p) => (stack, .or left p)
  | done => done

/-- Reads tokens where a predicate is to begin, or where one has just ended. -/
def run : List Frame → Option Predicate → List Token → Option Predicate
  | stack, none, .not :: ts => run (.not :: stack) none ts
  | stack, none, .opening :: ts => run (.group :: stack) none ts
  | stack, none, .name column :: .operator comparison :: .placeholder (some argument) :: ts =>
    run stack (some (.compare column comparison argument)) ts
  | stack, some p, .and :: ts => run (.and (closeAnd stack p).2 :: (closeAnd stack p).1) none ts
  | stack, some p, .or :: ts => run (.or (closeOr stack p).2 :: (closeOr stack p).1) none ts
  | stack, some p, .closing :: ts =>
    match closeOr stack p with
    | (.group :: stack, p) => run stack (some p) ts
    | _ => none
  | stack, some p, [] =>
    match closeOr stack p with
    | ([], p) => some p
    | _ => none
  | _, _, _ => none

def read (ts : List Token) : Option Predicate := run [] none ts

/-! ### What the grammar allows is read -/

section

variable {stack : List Frame} {p q : Predicate} {ts us rest : List Token}

/-- Nothing is begun in the innermost group. -/
def Fresh : List Frame → Prop
  | [] | .group :: _ => True
  | _ => False

/-- Nothing that binds tighter than `OR` is begun in the innermost group. -/
def Ready : List Frame → Prop
  | .or _ :: stack => Fresh stack
  | stack => Fresh stack

theorem Fresh.ready (h : Fresh stack) : Ready stack := by
  unfold Fresh at h
  split at h
  · trivial
  · trivial
  · exact h.elim

/-- With nothing to join in front, closing a conjunction changes nothing. -/
theorem closeAnd_of_ready (h : Ready stack) : closeAnd stack p = (stack, p) := by
  cases stack with
  | nil => rfl
  | cons frame stack => cases frame <;> first | rfl | exact h.elim

theorem closeOr_of_fresh (h : Fresh stack) : closeOr stack p = (stack, p) := by
  cases stack with
  | nil => rfl
  | cons frame stack => cases frame <;> first | rfl | exact h.elim

/-- After a predicate only what can be completed by it matters. -/
theorem run_congr {stack' : List Frame} {p' : Predicate}
    (h : closeAnd stack p = closeAnd stack' p') :
    run stack (some p) ts = run stack' (some p') ts := by
  have hor : closeOr stack p = closeOr stack' p' := by
    unfold closeOr
    rw [h]
  cases ts with
  | nil => simp only [run, hor]
  | cons token ts => cases token <;> simp only [run, h, hor]

theorem run_not : run (.not :: stack) (some p) ts = run stack (some (.not p)) ts := run_congr rfl

/-- A conjunction is closed as soon as its right side is read. -/
theorem run_and (h : Ready stack) :
    run (.and q :: stack) (some p) ts = run stack (some (.and q p)) ts := by
  refine run_congr ?_
  rw [closeAnd_of_ready h]
  rfl

/-- A disjunction has ended: what follows is no `AND`. -/
def Ended (ts : List Token) : Prop := ts.head? ≠ some .and

/-- A disjunction is closed where what follows does not bind more strongly. -/
theorem run_or (h : Fresh stack) (hended : Ended ts) :
    run (.or q :: stack) (some p) ts = run stack (some (.or q p)) ts := by
  have hor : closeOr (.or q :: stack) p = closeOr stack (.or q p) := by
    rw [closeOr_of_fresh h]
    rfl
  cases ts with
  | nil => simp only [run, hor]
  | cons token ts =>
      cases token
      case and => exact absurd rfl hended
      all_goals simp only [run, hor]

/-- What some tokens are read as depends on nothing that has been begun before them, and on nothing
that follows, as far as the level allows them to stand there. -/
def Runs : Level → List Token → Predicate → Prop
  | .disjunction, ts, p =>
    ∀ stack rest, Fresh stack → Ended rest → run stack none (ts ++ rest) = run stack (some p) rest
  | .conjunction, ts, p =>
    ∀ stack rest, Ready stack → run stack none (ts ++ rest) = run stack (some p) rest
  | .negation, ts, p => ∀ stack rest, run stack none (ts ++ rest) = run stack (some p) rest

/-- What the grammar reads the machine reads, at every level. -/
theorem Reads.runs {level : Level} (h : Reads level ts p) : Runs level ts p := by
  induction h with
  | compare column comparison argument =>
      intro stack rest
      simp only [List.cons_append, List.nil_append, run]
  | @group ts p _ ih =>
      -- inside of the group nothing is begun yet, whatever is outside
      intro stack rest
      have hinner := ih (.group :: stack) (.closing :: rest) trivial nofun
      have hclose : closeOr (.group :: stack) p = (.group :: stack, p) := closeOr_of_fresh trivial
      rw [List.cons_append, List.append_assoc, List.singleton_append, run, hinner]
      simp only [run, hclose]
  | @not ts p _ ih =>
      intro stack rest
      rw [List.cons_append, run, ih (.not :: stack) rest, run_not]
  | ofNegation _ ih =>
      intro stack rest _
      exact ih stack rest
  | @and ts us p q _ _ ih ih' =>
      intro stack rest hready
      rw [List.append_assoc, ih stack _ hready, List.cons_append, run, closeAnd_of_ready hready,
        ih' (.and p :: stack) rest, run_and hready]
  | ofConjunction _ ih =>
      intro stack rest hfresh _
      exact ih stack rest hfresh.ready
  | @or ts us p q _ _ ih ih' =>
      intro stack rest hfresh hended
      have hor : Ended (.or :: us ++ rest) := nofun
      rw [List.append_assoc, ih stack _ hfresh hor, List.cons_append, run, closeOr_of_fresh hfresh,
        ih' (.or p :: stack) rest hfresh, run_or hfresh hended]

/-- A whole text is read as the grammar reads it. -/
theorem read_of_reads (h : Reads .disjunction ts p) : read ts = some p := by
  have hended : Ended [] := by simp [Ended]
  have hruns := h.runs [] [] trivial hended
  rw [List.append_nil] at hruns
  exact hruns

end

/-! ### What is read the grammar allows -/

/-- The tokens that have led to a stack. -/
inductive Begun : List Frame → List Token → Prop where
  | nil : Begun [] []
  | group {stack : List Frame} {ts : List Token} :
      Begun stack ts → Begun (.group :: stack) (ts ++ [.opening])
  | or {stack : List Frame} {ts us : List Token} {p : Predicate} :
      Fresh stack → Begun stack ts → Reads .disjunction us p →
      Begun (.or p :: stack) (ts ++ (us ++ [.or]))
  | and {stack : List Frame} {ts us : List Token} {p : Predicate} :
      Ready stack → Begun stack ts → Reads .conjunction us p →
      Begun (.and p :: stack) (ts ++ (us ++ [.and]))
  | not {stack : List Frame} {ts : List Token} : Begun stack ts →
    Begun (.not :: stack) (ts ++ [.not])

section

variable {stack : List Frame} {p r : Predicate} {ts us : List Token}

/-- Closing a negation keeps what has been read a beginning of what the grammar allows. -/
theorem closeNot_begun (h : Begun stack ts) (hp : Reads .negation us p) :
    ∃ ts' us', ts ++ us = ts' ++ us' ∧ Begun (closeNot stack p).1 ts' ∧
      Reads .negation us' (closeNot stack p).2 ∧ ∀ stack',
        (closeNot stack p).1 ≠ .not :: stack' := by
  induction h generalizing us p with
  | @not stack ts _ ih =>
      obtain ⟨ts', us', heq, hbegun, hreads, hnot⟩ := ih (.not hp)
      refine ⟨ts', us', ?_, hbegun, hreads, hnot⟩
      rw [← heq, List.append_assoc, List.singleton_append]
  | nil => exact ⟨_, us, rfl, .nil, hp, nofun⟩
  | group h => exact ⟨_, us, rfl, .group h, hp, nofun⟩
  | or hfresh h hq => exact ⟨_, us, rfl, .or hfresh h hq, hp, nofun⟩
  | and hready h hq => exact ⟨_, us, rfl, .and hready h hq, hp, nofun⟩

theorem closeAnd_begun (h : Begun stack ts) (hp : Reads .negation us p) :
    ∃ ts' us', ts ++ us = ts' ++ us' ∧ Begun (closeAnd stack p).1 ts' ∧
      Reads .conjunction us' (closeAnd stack p).2 ∧ Ready (closeAnd stack p).1 := by
  obtain ⟨ts', us', heq, hbegun, hreads, hnot⟩ := closeNot_begun h hp
  unfold closeAnd
  generalize closeNot stack p = done at *
  obtain ⟨stack', p'⟩ := done
  cases hbegun with
  | nil => exact ⟨_, us', heq, .nil, .ofNegation hreads, trivial⟩
  | group h => exact ⟨_, us', heq, .group h, .ofNegation hreads, trivial⟩
  | or hfresh h hq => exact ⟨_, us', heq, .or hfresh h hq, .ofNegation hreads, hfresh⟩
  | @and stack' ts' vs q hready h hq =>
      refine ⟨ts', vs ++ .and :: us', ?_, h, .and hq hreads, hready⟩
      rw [heq, List.append_assoc, List.append_assoc, List.singleton_append]
  | not h => exact absurd rfl (hnot _)

theorem closeOr_begun (h : Begun stack ts) (hp : Reads .negation us p) :
    ∃ ts' us', ts ++ us = ts' ++ us' ∧ Begun (closeOr stack p).1 ts' ∧
      Reads .disjunction us' (closeOr stack p).2 ∧ Fresh (closeOr stack p).1 := by
  obtain ⟨ts', us', heq, hbegun, hreads, hready⟩ := closeAnd_begun h hp
  unfold closeOr
  generalize closeAnd stack p = done at *
  obtain ⟨stack', p'⟩ := done
  cases hbegun with
  | nil => exact ⟨_, us', heq, .nil, .ofConjunction hreads, trivial⟩
  | group h => exact ⟨_, us', heq, .group h, .ofConjunction hreads, trivial⟩
  | @or stack' ts' vs q hfresh h hq =>
      refine ⟨ts', vs ++ .or :: us', ?_, h, .or hq hreads, hfresh⟩
      rw [heq, List.append_assoc, List.append_assoc, List.singleton_append]
  | and hready' h hq => exact hready.elim
  | not h => exact hready.elim

/-- Whatever has led to a stack, what is read in the end is what the grammar allows. -/
theorem reads_of_run {pending : Option Predicate} (h : run stack pending us = some r)
    (hbegun : Begun stack ts) :
    match pending with
    | none => Reads .disjunction (ts ++ us) r
    | some p => ∀ vs, Reads .negation vs p → Reads .disjunction (ts ++ (vs ++ us)) r := by
  induction stack, pending, us using run.induct generalizing ts with
  | case1 stack us ih =>
      -- `NOT`
      rw [run] at h
      have hreads := ih h (.not hbegun)
      simp only [List.append_assoc, List.singleton_append] at hreads
      exact hreads
  | case2 stack us ih =>
      -- an opening parenthesis
      rw [run] at h
      have hreads := ih h (.group hbegun)
      simp only [List.append_assoc, List.singleton_append] at hreads
      exact hreads
  | case3 stack column comparison argument us ih =>
      -- a comparison
      rw [run] at h
      exact ih h hbegun _ (.compare column comparison argument)
  | case4 stack p us ih =>
      -- `AND`, which ends all negations begun
      intro vs hp
      rw [run] at h
      obtain ⟨ts', vs', heq, hbegun', hreads, hready⟩ := closeAnd_begun hbegun hp
      have hwhole := ih h (.and hready hbegun' hreads)
      simp only [List.append_assoc, List.singleton_append] at hwhole
      rw [← List.append_assoc, heq, List.append_assoc]
      exact hwhole
  | case5 stack p us ih =>
      -- `OR`, which ends a conjunction too
      intro vs hp
      rw [run] at h
      obtain ⟨ts', vs', heq, hbegun', hreads, hfresh⟩ := closeOr_begun hbegun hp
      have hwhole := ih h (.or hfresh hbegun' hreads)
      simp only [List.append_assoc, List.singleton_append] at hwhole
      rw [← List.append_assoc, heq, List.append_assoc]
      exact hwhole
  | case6 stack p us stack' p' hclose ih =>
      -- the parenthesis that closes the innermost group
      intro vs hp
      simp only [run, hclose] at h
      obtain ⟨ts', vs', heq, hbegun', hreads, -⟩ := closeOr_begun hbegun hp
      rw [hclose] at hbegun' hreads
      cases hbegun' with
      | @group stack' ts' hbegun' =>
          have hwhole := ih h hbegun' _ (.group hreads)
          simp only [List.append_assoc, List.cons_append] at hwhole
          rw [← List.append_assoc, heq]
          simp only [List.append_assoc, List.singleton_append]
          exact hwhole
  | case7 stack p us hclose =>
      -- a parenthesis that closes nothing
      simp only [run] at h
      cases h
  | case8 stack p p' hclose =>
      -- the end
      intro vs hp
      simp only [run, hclose, Option.some.injEq] at h
      obtain ⟨ts', vs', heq, hbegun', hreads, -⟩ := closeOr_begun hbegun hp
      rw [hclose] at hbegun' hreads
      cases hbegun'
      rw [List.append_nil, heq, List.nil_append, ← h]
      exact hreads
  | case9 stack p hclose =>
      -- the end, with a group still open
      simp only [run] at h
      cases h
  | case10 us stack pending =>
      -- a token that cannot stand here
      rw [run] at h
      · cases h
      all_goals assumption

/-- Tokens are read as a predicate exactly if the grammar derives it from them. -/
theorem read_eq_some_iff : read ts = some p ↔ Reads .disjunction ts p :=
  ⟨fun h => reads_of_run h Begun.nil, read_of_reads⟩

end

end Grammar

end SchemaHistory
