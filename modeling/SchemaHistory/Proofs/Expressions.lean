import SchemaHistory.Proofs.DataStatements
import Mathlib.Data.List.Chain

/-!
# Expressions over conditions

An expression puts a condition together from lists of lookups, any of which may be empty. The
combinators lose no lookup and keep their order, and they leave no hole in a condition or in its
text. So rows are changed or removed without a `WHERE` only if there is no lookup at all
(`Condition.Expression.nothing_lost`).
-/

namespace SchemaHistory

/-! ### Texts in which nothing is missing -/

namespace Lexeme

variable {cs ds : List Char} {ls ms : List Lexeme} {lexeme next word : Lexeme}

/-- Whether an operand of `AND`, `OR` and `NOT` may begin with a lexeme. -/
def beginsOperand (lexeme : Lexeme) : Bool :=
  lexeme.head? == some '"' || lexeme == ['('] || lexeme == "NOT".toList

/-- Whether an operand may end in a lexeme. -/
def endsOperand (lexeme : Lexeme) : Bool := isPlaceholder lexeme || lexeme == [')']

/-- Whether an operand has to follow a lexeme. -/
def opensOperand (lexeme : Lexeme) : Bool :=
  lexeme == ['('] || lexeme == "NOT".toList || lexeme == "AND".toList || lexeme == "OR".toList

/-- Whether an operand has to come before a lexeme. -/
def closesOperand (lexeme : Lexeme) : Bool :=
  lexeme == [')'] || lexeme == "AND".toList || lexeme == "OR".toList

/-- Whether there is an operand between two lexemes that stand next to each other if there has to be
one. -/
def Follows (lexeme next : Lexeme) : Prop :=
  (opensOperand lexeme = true → beginsOperand next = true) ∧
    (closesOperand next = true → endsOperand lexeme = true)

/-- Nothing is between empty parentheses. -/
example : ¬Follows ['('] [')'] := fun h => Bool.false_ne_true (h.2 rfl)

/-- An operand is everywhere where there has to be one: on both sides of `AND` and `OR`, behind
`NOT` and inside of parentheses. -/
structure Complete (ls : List Lexeme) : Prop where
  first : ∃ lexeme ∈ ls.head?, beginsOperand lexeme = true
  last : ∃ lexeme ∈ ls.getLast?, endsOperand lexeme = true
  between : ls.IsChain Follows

theorem closesOperand_of_begins (h : beginsOperand lexeme = true) :
    closesOperand lexeme = false := by
  simp only [beginsOperand, Bool.or_eq_true, beq_iff_eq] at h
  rcases h with (hquote | rfl) | rfl
  · obtain ⟨rest, rfl⟩ := List.head?_eq_some_iff.mp hquote
    rfl
  · rfl
  · rfl

theorem opensOperand_of_ends (h : endsOperand lexeme = true) : opensOperand lexeme = false := by
  simp only [endsOperand, Bool.or_eq_true, beq_iff_eq] at h
  rcases h with hplaceholder | rfl
  · cases lexeme with
    | nil => rfl
    | cons c cs =>
        simp only [isPlaceholder, List.head?_cons, Option.any_some, List.contains_iff_mem,
          List.mem_cons,
          List.not_mem_nil, or_false] at hplaceholder
        rcases hplaceholder with rfl | rfl | rfl <;> rfl
  · rfl

theorem follows_of_neither (hopens : opensOperand lexeme = false)
    (hcloses : closesOperand next = false) : Follows lexeme next := by
  constructor
  · intro h
    rw [hopens] at h
    cases h
  · intro h
    rw [hcloses] at h
    cases h

/-- After a lexeme that ends an operand anything may stand. -/
theorem follows_of_ends (h : endsOperand lexeme = true) (next : Lexeme) : Follows lexeme next := by
  refine ⟨fun hopens => ?_, fun _ => h⟩
  rw [opensOperand_of_ends h] at hopens
  cases hopens

/-- Before one that begins an operand anything may stand. -/
theorem follows_of_begins (lexeme : Lexeme) (h : beginsOperand next = true) :
    Follows lexeme next := by
  refine ⟨fun _ => h, fun hcloses => ?_⟩
  rw [closesOperand_of_begins h] at hcloses
  cases hcloses

/-- What is complete stays so behind any lexeme that an operand may begin with. -/
theorem Complete.cons (h : Complete ls) (hword : beginsOperand word = true) :
    Complete (word :: ls) where
  first := ⟨word, rfl, hword⟩
  last := by
    obtain ⟨lexeme, hlexeme, hends⟩ := h.last
    refine ⟨lexeme, ?_, hends⟩
    rw [List.getLast?_cons, Option.mem_def.mp hlexeme]
    rfl
  between := by
    obtain ⟨lexeme, hlexeme, hbegins⟩ := h.first
    rw [List.isChain_cons]
    refine ⟨fun next hnext => ?_, h.between⟩
    cases Option.mem_unique hlexeme hnext
    exact follows_of_begins word hbegins

/-- What is complete stays so before a closing parenthesis. -/
theorem Complete.concat (h : Complete ls) : Complete (ls ++ [[')']]) where
  first := by
    obtain ⟨lexeme, hlexeme, hbegins⟩ := h.first
    refine ⟨lexeme, ?_, hbegins⟩
    rw [List.head?_append, Option.mem_def.mp hlexeme]
    rfl
  last := ⟨[')'], by simp, rfl⟩
  between := by
    obtain ⟨lexeme, hlexeme, hends⟩ := h.last
    rw [List.isChain_append]
    refine ⟨h.between, List.isChain_singleton _, fun last hlast next _ => ?_⟩
    cases Option.mem_unique hlexeme hlast
    exact follows_of_ends hends next

/-- What is complete may be joined by any lexeme. -/
theorem Complete.join (h : Complete ls) (word : Lexeme) (h' : Complete ms) :
    Complete (ls ++ word :: ms) where
  first := by
    obtain ⟨lexeme, hlexeme, hbegins⟩ := h.first
    refine ⟨lexeme, ?_, hbegins⟩
    rw [List.head?_append, Option.mem_def.mp hlexeme]
    rfl
  last := by
    obtain ⟨lexeme, hlexeme, hends⟩ := h'.last
    refine ⟨lexeme, ?_, hends⟩
    rw [List.getLast?_append, List.getLast?_cons, Option.mem_def.mp hlexeme]
    rfl
  between := by
    obtain ⟨last, hlast, hends⟩ := h.last
    obtain ⟨first, hfirst, hbegins⟩ := h'.first
    rw [List.isChain_append, List.isChain_cons]
    refine ⟨h.between, ⟨fun next hnext => ?_, h'.between⟩, fun lexeme hlexeme next _ => ?_⟩
    · cases Option.mem_unique hfirst hnext
      exact follows_of_begins word hbegins
    · cases Option.mem_unique hlast hlexeme
      exact follows_of_ends hends next

/-- A text in which no operand is missing. -/
def CompleteText (cs : List Char) : Prop := ∃ ls, Spells cs ls ∧ Complete ls

/-- A complete text is a complete condition once it is cut into lexemes. -/
theorem CompleteText.complete (h : CompleteText cs) : Complete (lexemes cs) := by
  obtain ⟨ls, hspells, hcomplete⟩ := h
  rw [hspells.lexemes_eq]
  exact hcomplete

theorem CompleteText.ne_nil (h : CompleteText cs) : cs ≠ [] := by
  rintro rfl
  obtain ⟨lexeme, hlexeme, -⟩ := h.complete.first
  cases hlexeme

/-- Parentheses keep it complete. -/
theorem CompleteText.grouped (h : CompleteText cs) : CompleteText (Condition.grouped cs) := by
  obtain ⟨ls, hspells, hcomplete⟩ := h
  have hword : beginsOperand ['('] = true := rfl
  exact ⟨_, hspells.grouped, (hcomplete.cons hword).concat⟩

theorem CompleteText.not (h : CompleteText cs) : CompleteText ("NOT ".toList ++ cs) := by
  obtain ⟨ls, hspells, hcomplete⟩ := h
  exact ⟨_, (spells_keyword "NOT" rfl).append_blank hspells, hcomplete.cons rfl⟩

theorem CompleteText.join (h : CompleteText cs) (connective : Connective) (h' : CompleteText ds) :
    CompleteText (cs ++ ' ' :: Condition.connectiveText connective ++ ' ' :: ds) := by
  obtain ⟨ls, hspells, hcomplete⟩ := h
  obtain ⟨ms, hspells', hcomplete'⟩ := h'
  refine ⟨_, (hspells.append_blank (spells_connective connective)).append_blank hspells', ?_⟩
  rw [List.append_assoc]
  exact hcomplete.join _ hcomplete'

end Lexeme

namespace Condition

/-! ### The texts of conditions -/

open Lexeme

theorem completeText_test (dialect : Dialect) (number : Nat) (test : Test) :
    CompleteText (testText dialect number test) := by
  have hspells := ((spells_name test.column).append_blank
    (spells_operator dialect test.comparison)).append_blank (spells_placeholder dialect number)
  have hends : endsOperand (dialect.placeholder number) = true := by
    rw [endsOperand, isPlaceholder_placeholder, Bool.true_or]
  have hoperator : opensOperand (dialect.operator test.comparison) = false ∧
      closesOperand (dialect.operator test.comparison) = false := by
    cases dialect <;> cases test.comparison <;> exact ⟨rfl, rfl⟩
  have hplaceholder : closesOperand (dialect.placeholder number) = false := by
    cases dialect <;> rfl
  refine ⟨[_, _, _], hspells, ⟨_, rfl, rfl⟩, ⟨_, rfl, hends⟩, ?_⟩
  rw [List.isChain_cons_cons, List.isChain_cons_cons]
  exact ⟨follows_of_neither rfl hoperator.2, follows_of_neither hoperator.1 hplaceholder,
    List.isChain_singleton _⟩

/-- Tests joined by AND are complete as soon as there is one. -/
theorem completeText_all (dialect : Dialect) (start : Nat) {tests : List Test} (h : tests ≠ []) :
    CompleteText (joined " AND " (testTexts dialect start tests)) := by
  induction tests generalizing start with
  | nil => exact absurd rfl h
  | cons test rest ih =>
      have htest := completeText_test dialect start test
      cases rest with
      | nil =>
          rw [testTexts, testTexts, joined, List.intercalate_singleton]
          exact htest
      | cons next more =>
          have hjoined := htest.join .and (ih (start + 1) (List.cons_ne_nil _ _))
          -- the first test is joined to all the others
          rw [testTexts, joined, testTexts, List.intercalate_cons_cons, List.append_assoc]
          rw [List.append_assoc] at hjoined
          exact hjoined

/-- In the text of a condition without empty parts no operand is missing. -/
theorem completeText (dialect : Dialect) {condition : Condition Test} (h : condition.Full)
    (start : Nat) : CompleteText (condition.text dialect start) := by
  induction condition generalizing start with
  | empty => exact h.elim
  | all tests => exact completeText_all dialect start h
  | not inner ih => exact (ih h start).grouped.not
  | join left connective negated right ih ih' =>
      have hleft : CompleteText
          (if left.isCompound then grouped (left.text dialect start)
            else left.text dialect start) := by
        split
        · exact (ih h.1 start).grouped
        · exact ih h.1 start
      have hright : CompleteText ((if negated then "NOT ".toList else []) ++
          (if negated || right.isCompound then
            grouped (right.text dialect (start + left.tests.length))
          else right.text dialect (start + left.tests.length))) := by
        cases negated with
        | true => exact (ih' h.2 _).grouped.not
        | false =>
            show CompleteText (if right.isCompound then _ else _)
            split
            · exact (ih' h.2 _).grouped
            · exact ih' h.2 _
      have hboth := hleft.join connective hright
      simpa only [text, List.append_assoc, List.cons_append] using hboth

/-- Resolving leaves no hole. -/
theorem Full.of_resolve {model : Model} {condition : Condition Lookup} {resolved : Condition Test}
    (h : condition.Full) (hresolve : condition.resolve model = .ok resolved) : resolved.Full := by
  have hdenotes : ∀ lookup ∈ condition.tests, ∃ test, lookup.resolve model = .ok test := by
    intro lookup hlookup
    obtain ⟨test, -, htest⟩ := exists_of_mem_right (denotes_of_resolve hresolve).flip hlookup
    exact ⟨test, Lookup.resolve_eq_ok_iff.mpr htest⟩
  obtain ⟨resolved', hresolve', hfull, -⟩ := resolve_of_tests hdenotes
  cases hresolve.symm.trans hresolve'
  exact hfull h

/-! ### Expressions -/

/-- How a condition is put together from lists of lookups. -/
inductive Expression (α : Type) where
  | ofList (lookups : List α)
  | both (left right : Expression α)
  | butNot (left right : Expression α)
  | either (left right : Expression α)
  | eitherNot (left right : Expression α)
  | negate (inner : Expression α)

variable {α : Type}

/-- Joining conditions keeps the tests of either, left ones first. -/
theorem tests_link (connective : Connective) (negated : Bool) (left right : Condition α) :
    (link connective negated left right).tests = left.tests ++ right.tests := by
  cases right with
  | empty =>
      have hlink : link connective negated left empty = left := by cases left <;> rfl
      rw [hlink]
      exact (List.append_nil _).symm
  | all | not | join => cases left <;> cases negated <;> rfl

theorem tests_negate (inner : Condition α) : inner.negate.tests = inner.tests := by
  cases inner <;> rfl

/-- A full condition tests something. -/
theorem Full.tests_ne_nil {condition : Condition α} (h : condition.Full) :
    condition.tests ≠ [] := by
  induction condition with
  | empty => exact h.elim
  | all tests => exact h
  | not inner ih => exact ih h
  | join left connective negated right ih _ =>
      exact fun hnil => ih h.1 (List.append_eq_nil_iff.mp hnil).1

namespace Expression

variable {expression : Expression α}

def condition : Expression α → Condition α
  | ofList lookups => .ofList lookups
  | both left right => left.condition.both right.condition
  | butNot left right => left.condition.butNot right.condition
  | either left right => left.condition.either right.condition
  | eitherNot left right => left.condition.eitherNot right.condition
  | negate inner => inner.condition.negate

/-- The lists of lookups in an expression, in the order in which they are written. -/
def parts : Expression α → List (List α)
  | ofList lookups => [lookups]
  | both left right | butNot left right | either left right | eitherNot left right =>
    left.parts ++ right.parts
  | negate inner => inner.parts

/-- Every expression makes a condition that can be built. -/
theorem built (expression : Expression α) : expression.condition.Built := by
  induction expression with
  | ofList lookups => exact .ofList lookups
  | both _ _ ih ih' => exact .both ih ih'
  | butNot _ _ ih ih' => exact .butNot ih ih'
  | either _ _ ih ih' => exact .either ih ih'
  | eitherNot _ _ ih ih' => exact .eitherNot ih ih'
  | negate _ ih => exact .negate ih

theorem tests_condition (expression : Expression α) :
    expression.condition.tests = expression.parts.flatten := by
  have hlink : ∀ {left right : Expression α} (connective : Connective) (negated : Bool),
      left.condition.tests = left.parts.flatten → right.condition.tests = right.parts.flatten →
      (link connective negated left.condition right.condition).tests
        = (left.parts ++ right.parts).flatten := by
    intro left right connective negated hleft hright
    rw [tests_link, hleft, hright, List.flatten_append]
  induction expression with
  | ofList lookups => cases lookups <;> simp [condition, parts, Condition.ofList, tests]
  | both _ _ ih ih' => exact hlink .and false ih ih'
  | butNot _ _ ih ih' => exact hlink .and true ih ih'
  | either _ _ ih ih' => exact hlink .or false ih ih'
  | eitherNot _ _ ih ih' => exact hlink .or true ih ih'
  | negate inner ih => exact (tests_negate inner.condition).trans ih

theorem condition_eq_empty_iff :
    expression.condition = .empty ↔ ∀ lookups ∈ expression.parts, lookups = [] := by
  rw [← List.flatten_eq_nil_iff, ← tests_condition]
  constructor
  · intro hempty
    rw [hempty]
    rfl
  · intro hnil
    rcases expression.built.full with hempty | hfull
    · exact hempty
    · exact absurd hnil hfull.tests_ne_nil

end Expression

end Condition

namespace Backend

open Lexeme

variable {σ : Type} {backend : Backend σ} {model : Model} {condition : Condition Lookup}
  {assigned : List (String × Value)} {statement : Statement} {tests : List Test}

/-- A statement without WHERE binds no test. -/
theorem tests_eq_nil_of_binds (h : statement.Binds backend.dialect assigned tests)
    (hword : whereWord ∉ lexemes (statement.chars backend.dialect)) : tests = [] := by
  have hnone : fromWhere (statement.chars backend.dialect) = [] := by
    rw [fromWhere, List.dropWhile_eq_nil_iff]
    intro lexeme hlexeme
    rw [decide_eq_true_eq]
    rintro rfl
    exact hword hlexeme
  have hbindings := h.condition
  rw [hnone] at hbindings
  have hlength := congrArg List.length hbindings
  rw [Condition.bindings, List.length_map, List.length_zipIdx] at hlength
  exact List.length_eq_zero_iff.mp hlength.symm

/-- What an action does whose statement is restricted unless there is no condition: nothing but to
carry out that statement, or to fail. -/
def Guards (backend : Backend σ) (unrestricted : Prop) (action : Session σ Nat) : Prop :=
  (∃ statement : Statement, action = backend.execute statement ∧
    (whereWord ∉ lexemes (statement.chars backend.dialect) → unrestricted)) ∨
  ∃ e, action = throw e

/-- An action of a single statement is guarded by the condition of that statement. -/
theorem OneStatement.guards {action : Session σ Nat}
    (h : backend.OneStatement model condition assigned backend.execute action) :
    backend.Guards (condition.tests = []) action := by
  rcases h with ⟨tests, statement, hdenotes, hbinds, haction⟩ | ⟨e, -, haction⟩
  · refine .inl ⟨statement, haction, fun hword => ?_⟩
    rw [tests_eq_nil_of_binds hbinds hword] at hdenotes
    exact List.forall₂_nil_right_iff.mp hdenotes
  · exact .inr ⟨e, haction⟩

end Backend

namespace Condition.Expression

/-- The condition that an expression over lists of lookups builds is empty exactly if all of the
lists are. Else it has no hole, its lookups are those of the lists in the order in which they are
written, and if it can be resolved its text is not empty and misses no operand. Whatever it is, rows
are changed or removed without a `WHERE` only if all of the lists are empty. -/
theorem nothing_lost {σ : Type} (backend : Backend σ) (model : Model) (values : Row)
    (expression : Expression Lookup) :
    (expression.condition = .empty ↔ ∀ lookups ∈ expression.parts, lookups = []) ∧
    (expression.condition ≠ .empty →
      expression.condition.Full ∧ expression.condition.tests = expression.parts.flatten ∧
      ∀ resolved, expression.condition.resolve model = .ok resolved → ∀ dialect start,
        resolved.text dialect start ≠ [] ∧
          Lexeme.Complete (Lexeme.lexemes (resolved.text dialect start))) ∧
    backend.Guards (∀ lookups ∈ expression.parts, lookups = [])
      (backend.delete model expression.condition) ∧
    (backend.update model values expression.condition = pure 0 ∨
      backend.Guards (∀ lookups ∈ expression.parts, lookups = [])
        (backend.update model values expression.condition)) := by
  have hnone : expression.condition.tests = [] ↔ ∀ lookups ∈ expression.parts, lookups = [] := by
    rw [tests_condition, List.flatten_eq_nil_iff]
  rw [← hnone]
  refine ⟨?_, fun hne => ?_, (Backend.delete_oneStatement backend model _).guards, ?_⟩
  · rw [hnone, condition_eq_empty_iff]
  · have hfull := expression.built.full.resolve_left hne
    refine ⟨hfull, tests_condition expression, fun resolved hresolve dialect start => ?_⟩
    have htext := completeText dialect (hfull.of_resolve hresolve) start
    exact ⟨htext.ne_nil, htext.complete⟩
  · by_cases hnothing : Fields.given values (model.fields.filter (·.1 ≠ model.key)) = []
    · exact .inl (Backend.update_of_nothing backend model values _ hnothing)
    · exact .inr (Backend.update_oneStatement backend model values _ hnothing).guards

/-- An expression in which three of the four lists are empty. -/
def titleExpression : Expression Lookup :=
  .eitherNot (.both (.ofList []) (.butNot (.ofList [⟨"title", .text "Emma"⟩]) (.ofList [])))
    (.negate (.ofList []))

theorem titleExpression_complete : titleExpression.condition ≠ .empty ∧
    titleExpression.condition.tests = [⟨"title", .text "Emma"⟩] ∧
    ∃ resolved, titleExpression.condition.resolve bookModel = .ok resolved ∧
      Lexeme.Complete (Lexeme.lexemes (resolved.text .sqlite 1)) ∧
      Backend.shelf.Guards False (Backend.shelf.delete bookModel titleExpression.condition) := by
  have hne : titleExpression.condition ≠ .empty := nofun
  obtain ⟨hempty, hfull, hdelete, -⟩ := nothing_lost Backend.shelf bookModel [] titleExpression
  obtain ⟨-, htests, htext⟩ := hfull hne
  have hsome : (∀ lookups ∈ titleExpression.parts, lookups = []) = False :=
    eq_false (mt hempty.mpr hne)
  rw [hsome] at hdelete
  exact ⟨hne, htests, _, rfl, (htext _ rfl .sqlite 1).2, hdelete⟩

end Condition.Expression

end SchemaHistory
