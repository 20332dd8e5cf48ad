import SchemaHistory.Dialect
import SchemaHistory.Model

/-!
# Conditions

A condition is a tree over lookups that are joined by `AND`, `OR` and `NOT`. It is built with
combinators under which an empty condition is neutral. Resolving a condition in a model turns every
lookup into a test of a column; the tests can then be written down, their arguments numbered from
left to right.
-/

namespace SchemaHistory

inductive Connective where
  | and
  | or
deriving DecidableEq

inductive Condition (α : Type) where
  /-- No condition at all. -/
  | empty
  /-- All of the given tests hold. -/
  | all (tests : List α)
  | not (inner : Condition α)
  /-- Two conditions, the right one negated or not. -/
  | join (left : Condition α) (connective : Connective) (negated : Bool) (right : Condition α)
deriving DecidableEq

namespace Condition

/-! ### Building -/

variable {α : Type}

/-- The condition that all of the given tests hold. Without tests there is no condition. -/
def ofList : List α → Condition α
  | [] => empty
  | tests => all tests

def isEmpty : Condition α → Bool
  | empty => true
  | _ => false

/-- Joins two conditions. An empty one adds nothing. -/
def link (connective : Connective) (negated : Bool) : Condition α → Condition α → Condition α
  | left, empty => left
  | empty, right => if negated then not right else right
  | left, right => join left connective negated right

def both (left right : Condition α) : Condition α := link .and false left right

def butNot (left right : Condition α) : Condition α := link .and true left right

def either (left right : Condition α) : Condition α := link .or false left right

def eitherNot (left right : Condition α) : Condition α := link .or true left right

def negate : Condition α → Condition α
  | empty => empty
  | condition => not condition

def tests : Condition α → List α
  | empty => []
  | all tests => tests
  | not inner => inner.tests
  | join left _ _ right => left.tests ++ right.tests

end Condition

/-- A field, by a key that also says how to compare it, and the value to compare it with. -/
structure Lookup where
  key : String
  value : Value
deriving DecidableEq

/-! ### Resolving -/

/-- A column and the value it is compared with. -/
structure Test where
  column : String
  comparison : Comparison
  value : Value
deriving DecidableEq

def Lookup.resolve (model : Model) (lookup : Lookup) : Except SchemaError Test := do
  let (field, comparison) ← LookupKey.decode lookup.key
  let column ← model.column field
  return { column, comparison, value := lookup.value }

namespace Condition

/-- Resolves the lookups of a condition in a model, from left to right. -/
def resolve (model : Model) : Condition Lookup → Except SchemaError (Condition Test)
  | empty => .ok empty
  | all lookups => do return all (← lookups.mapM (Lookup.resolve model))
  | not inner => do return not (← inner.resolve model)
  | join left connective negated right => do
    let left ← left.resolve model
    let right ← right.resolve model
    return join left connective negated right

def arguments (condition : Condition Test) : List Value := condition.tests.map (·.value)

/-- Whether a condition is put in parentheses when it is joined with another. -/
def isCompound : Condition Test → Bool
  | join .. => true
  | all tests => 1 < tests.length
  | empty | not _ => false

/-! ### Writing -/

def testText (dialect : Dialect) (number : Nat) (test : Test) : List Char :=
  quotedName test.column ++ ' ' :: dialect.operator test.comparison ++
    ' ' :: dialect.placeholder number

def testTexts (dialect : Dialect) (start : Nat) : List Test → List (List Char)
  | [] => []
  | test :: rest => testText dialect start test :: testTexts dialect (start + 1) rest

def grouped (cs : List Char) : List Char := '(' :: cs ++ [')']

def connectiveText : Connective → List Char
  | .and => "AND".toList
  | .or => "OR".toList

def text (dialect : Dialect) (start : Nat) : Condition Test → List Char
  | empty => []
  | all tests => joined " AND " (testTexts dialect start tests)
  | not inner => "NOT ".toList ++ grouped (inner.text dialect start)
  | join left connective negated right =>
    let leftText := left.text dialect start
    let rightText := right.text dialect (start + left.tests.length)
    (if left.isCompound then grouped leftText else leftText) ++
      ' ' :: connectiveText connective ++ ' ' ::
      (if negated then "NOT ".toList else []) ++
      (if negated || right.isCompound then grouped rightText else rightText)

/-- The clause that restricts a statement to the rows under a condition, or nothing. -/
def whereText (dialect : Dialect) (start : Nat) (condition : Condition Test) : List Char :=
  match condition.text dialect start with
  | [] => []
  | text => " WHERE ".toList ++ text

end Condition

end SchemaHistory
