import SchemaHistory.Proofs.PredicateText
import SchemaHistory.Proofs.Sessions
import Mathlib.Data.List.Induction

/-!
# What conditions mean

The truth of a condition can be told from its tree, and the truth of a predicate that has been read
from its text can be told from what was read. They are the same, whatever comparisons of values
mean, for every condition that the combinators build (`Condition.meaning_preserved`).

Truth has three values, since a comparison with `NULL` is neither true nor false. The text is read
by the precedence of the language alone: `written` goes by induction over the tree and says at which
level of the grammar each part of the text stands, which is where the parentheses have to be right.
-/

namespace SchemaHistory

/-! ### Three truth values -/

/-- A truth value of SQL. -/
inductive Truth where
  | no
  | unknown
  | yes
deriving DecidableEq

namespace Truth

def not : Truth → Truth
  | no => yes
  | unknown => unknown
  | yes => no

def and : Truth → Truth → Truth
  | no, _ | _, no => no
  | yes, yes => yes
  | _, _ => unknown

def or : Truth → Truth → Truth
  | yes, _ | _, yes => yes
  | no, no => no
  | _, _ => unknown

theorem yes_and (truth : Truth) : yes.and truth = truth := by
  cases truth <;> rfl

def joined : Connective → Truth → Truth → Truth
  | .and => and
  | .or => or

end Truth

/-- The truth of a predicate in a row. Nothing is assumed of what comparisons mean; null may be
compared in any way. -/
def Predicate.truth (compares : Comparison → Value → Value → Truth) (row : String → Value)
    (argument : Nat → Value) : Predicate → Truth
  | compare column comparison number => compares comparison (row column) (argument number)
  | not inner => (inner.truth compares row argument).not
  | and left right => (left.truth compares row argument).and (right.truth compares row argument)
  | or left right => (left.truth compares row argument).or (right.truth compares row argument)

theorem Predicate.truth_joining {compares : Comparison → Value → Value → Truth}
    {row : String → Value}
    {argument : Nat → Value} (connective : Connective) (p q : Predicate) :
    (Grammar.joining connective p q).truth compares row argument
      = .joined connective (p.truth compares row argument) (q.truth compares row argument) := by
  cases connective <;> rfl

def Test.truth (compares : Comparison → Value → Value → Truth) (row : String → Value)
    (test : Test) :
    Truth :=
  compares test.comparison (row test.column) test.value

def Lookup.truth (model : Model) (compares : Comparison → Value → Value → Truth)
    (row : String → Value)
    (lookup : Lookup) : Truth :=
  match lookup.resolve model with
  | .ok test => test.truth compares row
  | .error _ => .unknown

namespace Condition

variable {α : Type}

/-- The truth of a condition, given that of its tests. -/
def truth (holds : α → Truth) : Condition α → Truth
  | empty => .yes
  | all tests => tests.foldl (fun truth test => truth.and (holds test)) .yes
  | not inner => (inner.truth holds).not
  | join left connective negated right => .joined connective (left.truth holds)
    (if negated then (right.truth holds).not else right.truth holds)

/-! ### Built conditions -/

/-- Conditions that are built with the combinators. -/
inductive Built : Condition α → Prop where
  | ofList (tests : List α) : Built (ofList tests)
  | both {left right : Condition α} : Built left → Built right → Built (left.both right)
  | butNot {left right : Condition α} : Built left → Built right → Built (left.butNot right)
  | either {left right : Condition α} : Built left → Built right → Built (left.either right)
  | eitherNot {left right : Condition α} : Built left → Built right → Built (left.eitherNot right)
  | negate {inner : Condition α} : Built inner → Built inner.negate

/-- Nothing in the tree is empty. -/
def Full : Condition α → Prop
  | empty => False
  | all tests => tests ≠ []
  | not inner => inner.Full
  | join left _ _ right => left.Full ∧ right.Full

variable {condition left right : Condition α}

/-- Either there is no condition at all, or nothing in it is empty. -/
theorem full_link (connective : Connective) (negated : Bool) (hleft : left = empty ∨ left.Full)
    (hright : right = empty ∨ right.Full) :
    link connective negated left right = empty ∨ (link connective negated left right).Full := by
  rcases hright with rfl | hright
  · have hlink : link connective negated left empty = left := by cases left <;> rfl
    rw [hlink]
    exact hleft
  · rcases hleft with rfl | hleft
    · have hlink : link connective negated empty right = if negated then not right else right := by
        cases right <;> first | rfl | exact hright.elim
      rw [hlink]
      cases negated
      · exact .inr hright
      · exact .inr hright
    · have hlink : link connective negated left right = join left connective negated right := by
        cases left <;> cases right <;> first | rfl | exact hleft.elim | exact hright.elim
      rw [hlink]
      exact .inr ⟨hleft, hright⟩

/-- A built condition is empty or full. -/
theorem Built.full (h : condition.Built) : condition = empty ∨ condition.Full := by
  induction h with
  | ofList tests =>
      cases tests with
      | nil => exact .inl rfl
      | cons test rest => exact .inr (List.cons_ne_nil test rest)
  | both _ _ ih ih' => exact full_link .and false ih ih'
  | butNot _ _ ih ih' => exact full_link .and true ih ih'
  | either _ _ ih ih' => exact full_link .or false ih ih'
  | eitherNot _ _ ih ih' => exact full_link .or true ih ih'
  | @negate inner _ ih =>
      rcases ih with rfl | hfull
      · exact .inl rfl
      · have hnegate : inner.negate = not inner := by
          cases inner <;> first | rfl | exact hfull.elim
        rw [hnegate]
        exact .inr hfull

/-! ### Resolving keeps the meaning -/

theorem mapM_resolve {model : Model} {lookups : List Lookup}
    (h : ∀ lookup ∈ lookups, ∃ test, lookup.resolve model = .ok test) :
    ∃ tests, lookups.mapM (Lookup.resolve model) = .ok tests := by
  induction lookups with
  | nil => exact ⟨[], rfl⟩
  | cons lookup rest ih =>
      obtain ⟨⟨test, htest⟩, hrest⟩ := List.forall_mem_cons.mp h
      obtain ⟨tests, htests⟩ := ih hrest
      exact ⟨test :: tests, Except.mapM_eq_ok.mpr (.cons htest (Except.mapM_eq_ok.mp htests))⟩

/-- A group of lookups is true as all of its tests are together. -/
theorem foldl_truth {model : Model} {compares : Comparison → Value → Value → Truth}
    {row : String → Value}
    {lookups : List Lookup} {tests : List Test}
    (h : List.Forall₂ (fun lookup test => Lookup.resolve model lookup = .ok test) lookups tests)
    (start : Truth) :
    tests.foldl (fun truth test => truth.and (test.truth compares row)) start
      = lookups.foldl (fun truth lookup => truth.and (lookup.truth model compares row)) start := by
  induction h generalizing start with
  | nil => rfl
  | @cons lookup test lookups tests hresolve _ ih =>
      have hsame : lookup.truth model compares row = test.truth compares row := by
        unfold Lookup.truth
        rw [hresolve]
      rw [List.foldl_cons, List.foldl_cons, hsame, ih]

/-- A condition whose lookups can be resolved can be resolved, to one that is true in the same
rows. -/
theorem resolve_of_tests {model : Model} {condition : Condition Lookup}
    (h : ∀ lookup ∈ condition.tests, ∃ test, lookup.resolve model = .ok test) :
    ∃ resolved, condition.resolve model = .ok resolved ∧ (condition.Full → resolved.Full) ∧
      ∀ compares row, resolved.truth (Test.truth compares row)
        = condition.truth (Lookup.truth model compares row) := by
  induction condition with
  | empty => exact ⟨empty, rfl, id, fun _ _ => rfl⟩
  | all lookups =>
      have hlookups : ∀ lookup ∈ lookups, ∃ test, lookup.resolve model = .ok test := h
      obtain ⟨tests, htests⟩ := mapM_resolve hlookups
      refine ⟨all tests, ?_, ?_, fun compares row => ?_⟩
      · show (lookups.mapM (Lookup.resolve model) >>= _) = _
        rw [htests]
        rfl
      · rintro hfull rfl
        exact hfull (List.forall₂_nil_right_iff.mp (Except.mapM_eq_ok.mp htests))
      · exact foldl_truth (Except.mapM_eq_ok.mp htests) .yes
  | not inner ih =>
      obtain ⟨resolved, hresolve, hfull, htruth⟩ := ih h
      refine ⟨not resolved, ?_, hfull, fun compares row => ?_⟩
      · show (inner.resolve model >>= _) = _
        rw [hresolve]
        rfl
      · rw [truth, truth, htruth]
  | join left connective negated right ih ih' =>
      obtain ⟨resolved, hresolve, hfull, htruth⟩ :=
        ih fun lookup hmem => h lookup (List.mem_append_left _ hmem)
      obtain ⟨resolved', hresolve', hfull', htruth'⟩ :=
        ih' fun lookup hmem => h lookup (List.mem_append_right _ hmem)
      refine ⟨join resolved connective negated resolved', ?_, fun hboth => ?_,
        fun compares row => ?_⟩
      · show (left.resolve model >>= _) = _
        rw [hresolve]
        show (right.resolve model >>= _) = _
        rw [hresolve']
        rfl
      · exact ⟨hfull hboth.1, hfull' hboth.2⟩
      · rw [truth, truth, htruth, htruth']

/-! ### Writing keeps the meaning -/

open Grammar

/-- The arguments from `start` on have the given values. -/
def Assigns (start : Nat) (values : List Value) (argument : Nat → Value) : Prop :=
  ∀ i value, values[i]? = some value → argument (start + i) = value

section Assigns

variable {start : Nat} {values values' : List Value} {value : Value} {argument : Nat → Value}

theorem Assigns.of_append_left (h : Assigns start (values ++ values') argument) :
    Assigns start values argument := by
  intro i value hvalue
  refine h i value ?_
  rw [List.getElem?_append_left (List.getElem?_eq_some_iff.mp hvalue).1, hvalue]

/-- The values of later tests are the later arguments. -/
theorem Assigns.of_append_right (h : Assigns start (values ++ values') argument) :
    Assigns (start + values.length) values' argument := by
  intro i value hvalue
  rw [Nat.add_assoc]
  refine h (values.length + i) value ?_
  rw [List.getElem?_append_right (Nat.le_add_right _ _), Nat.add_sub_cancel_left, hvalue]

theorem Assigns.head (h : Assigns start [value] argument) : argument start = value := h 0 value rfl

end Assigns

/-- A predicate is true where a condition is whose arguments are numbered from `start`. -/
def Means (condition : Condition Test) (start : Nat) (p : Predicate) : Prop :=
  ∀ compares row argument, Assigns start condition.arguments argument →
    p.truth compares row argument = condition.truth (Test.truth compares row)

theorem joined_append_singleton {separator : String} {parts : List (List Char)} (h : parts ≠ [])
    (part : List Char) :
    joined separator (parts ++ [part]) = joined separator parts ++ separator.toList ++ part := by
  induction parts with
  | nil => exact absurd rfl h
  | cons first rest ih =>
      cases rest with
      | nil => simp [joined, List.intercalate]
      | cons second rest =>
          have hrest := ih (List.cons_ne_nil second rest)
          simp only [joined, List.intercalate, List.cons_append, List.intersperse_cons_cons,
            List.flatten_cons] at hrest ⊢
          rw [hrest]
          simp only [List.append_assoc]

/-- Later tests are numbered on from the earlier ones. -/
theorem testTexts_append {dialect : Dialect} {start : Nat} {tests rest : List Test} :
    testTexts dialect start (tests ++ rest)
      = testTexts dialect start tests ++ testTexts dialect (start + tests.length) rest := by
  induction tests generalizing start with
  | nil => rfl
  | cons test tests ih =>
      rw [List.cons_append, testTexts, ih, testTexts, List.cons_append, List.length_cons]
      congr 3
      omega

/-- Tests joined by AND are written as the conjunction of all of them. -/
theorem written_all (dialect : Dialect) (start : Nat) {tests : List Test} (h : tests ≠ []) :
    ∃ p, Written dialect .conjunction start (start + tests.length)
        (joined " AND " (testTexts dialect start tests)) p ∧
      (tests.length = 1 → Written dialect .negation start (start + tests.length)
        (joined " AND " (testTexts dialect start tests)) p) ∧
      Means (all tests) start p := by
  -- `AND` is read from the left, so the last test is the one that is joined last
  induction tests using List.reverseRecOn with
  | nil => exact absurd rfl h
  | append_singleton tests test ih =>
      cases tests with
      | nil =>
          have hwritten := written_test dialect start test
          have htext : joined " AND " (testTexts dialect start ([] ++ [test]))
              = testText dialect start test := by
            simp [joined, List.intercalate, testTexts]
          rw [htext]
          refine ⟨_, hwritten.conjunction, fun _ => hwritten,
            fun compares row argument hassigns => ?_⟩
          show compares test.comparison (row test.column) (argument start) = Truth.yes.and _
          rw [Truth.yes_and, Assigns.head hassigns]
          rfl
      | cons first rest =>
          obtain ⟨p, hwritten, -, hmeans⟩ := ih (List.cons_ne_nil first rest)
          generalize htests : first :: rest = tests at *
          have hlast := written_test dialect (start + tests.length) test
          have htexts : testTexts dialect start tests ≠ [] := by
            rw [← htests]
            exact List.cons_ne_nil _ _
          have htext : joined " AND " (testTexts dialect start (tests ++ [test]))
              = joined " AND " (testTexts dialect start tests) ++ " AND ".toList
                ++ testText dialect (start + tests.length) test := by
            rw [testTexts_append]
            exact joined_append_singleton htexts _
          have hlength : start + (tests ++ [test]).length = start + tests.length + 1 := by
            rw [List.length_append, List.length_singleton, Nat.add_assoc]
          rw [htext, hlength]
          refine ⟨_, hwritten.and hlast, ?_, fun compares row argument hassigns => ?_⟩
          · intro hone
            rw [List.length_append, List.length_singleton, ← htests, List.length_cons] at hone
            omega
          · have harguments : (all (tests ++ [test])).arguments
                = (all tests).arguments ++ [test.value] := List.map_append
            have hcount : (all tests).arguments.length = tests.length := List.length_map _
            rw [harguments] at hassigns
            have hfirst := Assigns.of_append_left hassigns
            have hvalue := (Assigns.of_append_right hassigns).head
            rw [hcount] at hvalue
            show (p.truth compares row argument).and
              (compares test.comparison (row test.column) (argument (start + tests.length))) = _
            rw [hmeans compares row argument hfirst, hvalue, truth, truth, List.foldl_append]
            rfl

/-- A condition in a place where only what binds at least as tight as `NOT` may stand. -/
theorem written_operand {dialect : Dialect} {condition : Condition Test} {start stop : Nat}
    {p : Predicate}
    (h : Written dialect .disjunction start stop (condition.text dialect start) p)
    (htight : condition.isCompound = false →
      Written dialect .negation start stop (condition.text dialect start) p) :
    Written dialect .negation start stop
      (if condition.isCompound then grouped (condition.text dialect start)
        else condition.text dialect start) p := by
  cases hcompound : condition.isCompound with
  | true =>
      rw [if_pos rfl]
      exact h.grouped
  | false => exact htight hcompound

/-- The text of a condition is read as a predicate that means the same. -/
theorem written (dialect : Dialect) {condition : Condition Test} (hfull : condition.Full)
    (start : Nat) :
    ∃ p, Written dialect .disjunction start (start + condition.tests.length)
        (condition.text dialect start) p ∧
      (condition.isCompound = false →
        Written dialect .negation start (start + condition.tests.length)
        (condition.text dialect start) p) ∧
      condition.Means start p := by
  induction condition generalizing start with
  | empty => exact hfull.elim
  | all tests =>
      obtain ⟨p, hwritten, hone, hmeans⟩ := written_all dialect start hfull
      refine ⟨p, hwritten.disjunction, fun hsingle => hone ?_, hmeans⟩
      have hle : ¬1 < tests.length := of_decide_eq_false hsingle
      have hpos : 0 < tests.length := List.length_pos_iff.mpr hfull
      omega
  | not inner ih =>
      -- what is negated is in parentheses, so it does not matter how tight it binds
      obtain ⟨p, hwritten, -, hmeans⟩ := ih hfull start
      refine ⟨.not p, hwritten.grouped.not.conjunction.disjunction, fun _ =>
        hwritten.grouped.not, ?_⟩
      intro compares row argument hassigns
      show (p.truth compares row argument).not = _
      rw [hmeans compares row argument hassigns, truth]
  | join left connective negated right ih ih' =>
      obtain ⟨p, hwritten, htight, hmeans⟩ := ih hfull.1 start
      obtain ⟨q, hwritten', htight', hmeans'⟩ := ih' hfull.2 (start + left.tests.length)
      have hlength : start + (join left connective negated right).tests.length
          = start + left.tests.length + right.tests.length := by
        rw [Condition.tests, List.length_append, Nat.add_assoc]
      have hleft := written_operand hwritten htight
      have htext : (join left connective negated right).text dialect start
          = (if left.isCompound then grouped (left.text dialect start) else left.text dialect start)
            ++ ' ' :: connectiveText connective ++ ' ' ::
            ((if negated then "NOT ".toList else []) ++
              (if negated || right.isCompound then
                grouped (right.text dialect (start + left.tests.length))
              else right.text dialect (start + left.tests.length))) := by
        rw [text]
        simp only [List.append_assoc, List.cons_append]
      have hboth : ∀ compares row argument,
          Assigns start (join left connective negated right).arguments argument →
          p.truth compares row argument = left.truth (Test.truth compares row) ∧
            q.truth compares row argument = right.truth (Test.truth compares row) := by
        intro compares row argument hassigns
        have harguments : (join left connective negated right).arguments
            = left.arguments ++ right.arguments := List.map_append
        have hcount : left.arguments.length = left.tests.length := List.length_map _
        rw [harguments] at hassigns
        have hright := Assigns.of_append_right hassigns
        rw [hcount] at hright
        exact ⟨hmeans compares row argument (Assigns.of_append_left hassigns),
          hmeans' compares row argument hright⟩
      rw [hlength, htext]
      -- a negated right side is in parentheses behind `NOT`, another one only if it is compound
      cases negated with
      | true =>
          refine ⟨_, hleft.join connective hwritten'.grouped.not, nofun, ?_⟩
          intro compares row argument hassigns
          obtain ⟨hp, hq⟩ := hboth compares row argument hassigns
          rw [Predicate.truth_joining, hp, Predicate.truth, hq]
          rfl
      | false =>
          have hright := written_operand hwritten' htight'
          refine ⟨_, hleft.join connective hright, nofun, ?_⟩
          intro compares row argument hassigns
          obtain ⟨hp, hq⟩ := hboth compares row argument hassigns
          rw [Predicate.truth_joining, hp, hq]
          rfl

/-- The argument with a number, where those from `start` on are given. -/
def argumentAt (start : Nat) (arguments : List Value) (number : Nat) : Value :=
  if start ≤ number then arguments[number - start]?.getD .null else .null

theorem assigns_argumentAt (start : Nat) (values : List Value) :
    Assigns start values (argumentAt start values) := by
  intro i value hvalue
  unfold argumentAt
  rw [if_pos (Nat.le_add_right _ _), Nat.add_sub_cancel_left, hvalue]
  rfl

/-- Let a condition be built with the combinators, and let its lookups have a meaning in a model. If
it is empty its text is empty. Else its text is read as a predicate by the grammar of SQL, whatever
the dialect and the number of the first argument are. The grammar allows it to be read as no other,
and with the arguments that belong to the text the predicate has the truth value of the condition in
every row, whatever comparisons mean. -/
theorem meaning_preserved {model : Model} {condition : Condition Lookup} (hbuilt : condition.Built)
    (hresolve : ∀ lookup ∈ condition.tests, ∃ test, lookup.resolve model = .ok test)
    (dialect : Dialect) (start : Nat) :
    ∃ resolved, condition.resolve model = .ok resolved ∧
      (condition = .empty → resolved.text dialect start = []) ∧
      (condition ≠ .empty → ∃ p, readText start (resolved.text dialect start) = some p ∧
        (∀ q, Allows start (resolved.text dialect start) q ↔ q = p) ∧
        ∀ compares row, p.truth compares row (argumentAt start resolved.arguments)
          = condition.truth (Lookup.truth model compares row)) := by
  obtain ⟨resolved, hresolved, hfull, htruth⟩ := resolve_of_tests hresolve
  refine ⟨resolved, hresolved, ?_, fun hne => ?_⟩
  · rintro rfl
    cases hresolved
    rfl
  · rcases hbuilt.full with rfl | hcondition
    · exact absurd rfl hne
    · obtain ⟨p, hwritten, -, hmeans⟩ := written dialect (hfull hcondition) start
      have hread := hwritten.readText
      refine ⟨p, hread, fun q => ?_, fun compares row => ?_⟩
      · rw [← readText_eq_some_iff, hread, Option.some_inj, eq_comm]
      · rw [hmeans compares row _ (assigns_argumentAt start resolved.arguments), htruth]

/-! ### Books -/

/-- A model with a column whose name has quotes in it. -/
def bookModel : Model where
  app := "shelf"
  name := "Book"
  table := "book"
  key := "id"
  fields := [("id", .ofKind .auto),
    ("title", { Field.ofKind .text with column := some "the \"title\"" })]
  indexes := []

def bookCondition : Condition Lookup :=
  ((ofList [⟨"id >", .int 1⟩]).either (ofList [⟨"title", .text "Emma"⟩])).butNot
    (ofList [⟨"id !=", .int 5⟩])

/-- The `OR` is kept together although `AND` binds tighter. -/
theorem bookCondition_read : ∃ p,
    readText 3 "(\"id\" > $3 OR \"the \"\"title\"\"\" = $4) AND NOT (\"id\" <> $5)".toList
      = some p ∧
    (∀ q, Allows 3 "(\"id\" > $3 OR \"the \"\"title\"\"\" = $4) AND NOT (\"id\" <> $5)".toList q
      ↔ q = p) ∧
    ∀ compares row, p.truth compares row (argumentAt 3 [.int 1, .text "Emma", .int 5])
      = ((compares .greater (row "id") (.int 1)).or
          (compares .equal (row "the \"title\"") (.text "Emma"))).and
        (compares .notEqual (row "id") (.int 5)).not := by
  have hbuilt : bookCondition.Built := .butNot (.either (.ofList _) (.ofList _)) (.ofList _)
  have hresolve : ∀ lookup ∈ bookCondition.tests, ∃ test, lookup.resolve bookModel = .ok test := by
    have htests : bookCondition.tests
        = [⟨"id >", .int 1⟩, ⟨"title", .text "Emma"⟩, ⟨"id !=", .int 5⟩] := rfl
    rw [htests]
    simp only [List.forall_mem_cons, List.not_mem_nil, false_implies, implies_true, and_true]
    exact ⟨⟨_, rfl⟩, ⟨_, rfl⟩, ⟨_, rfl⟩⟩
  have hbook : bookCondition.resolve bookModel
      = .ok (join
        (join (all [⟨"id", .greater, .int 1⟩]) .or false
          (all [⟨"the \"title\"", .equal, .text "Emma"⟩]))
        .and true (all [⟨"id", .notEqual, .int 5⟩])) := rfl
  obtain ⟨resolved, hresolved, -, hread⟩ := meaning_preserved hbuilt hresolve .postgres 3
  obtain ⟨p, hp, hunique, htruth⟩ := hread nofun
  obtain rfl := Except.ok.inj (hbook.symm.trans hresolved)
  refine ⟨p, hp, hunique, fun compares row => (htruth compares row).trans ?_⟩
  have hid : Lookup.truth bookModel compares row ⟨"id >", .int 1⟩
      = compares .greater (row "id") (.int 1) := rfl
  have htitle : Lookup.truth bookModel compares row ⟨"title", .text "Emma"⟩
      = compares .equal (row "the \"title\"") (.text "Emma") := rfl
  have hother : Lookup.truth bookModel compares row ⟨"id !=", .int 5⟩
      = compares .notEqual (row "id") (.int 5) := rfl
  simp only [bookCondition, butNot, either, link, ofList, truth, List.foldl_cons, List.foldl_nil,
    Truth.yes_and, hid, htitle, hother]
  rfl

end Condition

end SchemaHistory
