import SchemaHistory.Statement

/-!
# Backends

A `Backend` is a database as its user sees it: it speaks a dialect, it carries out statements, it
opens and ends transactions, and each of these may be refused. What it does to its state `σ` is left
open. The state is kept also where an action fails, since what a database did before it refused
something is done.
-/

namespace SchemaHistory

abbrev Row := Named Value

/-- An action on a database that may fail. -/
abbrev Session (σ : Type) := EStateM SchemaError σ

/-- A database with state `σ`. -/
structure Backend (σ : Type) where
  dialect : Dialect
  /-- The moment that the clock shows. -/
  now : DateTime
  /-- Carries out a statement. The answer is the number of rows it concerned. -/
  execute : Statement → Session σ Nat
  /-- Carries out a statement that answers with rows. -/
  query : Statement → Session σ (List Row)
  /-- Opens a transaction. -/
  begin : Session σ Unit
  /-- Ends the open transaction and keeps its effects. -/
  commit : Session σ Unit
  /-- Ends the open transaction and takes its effects back. -/
  rollback : Session σ Unit

namespace Backend

variable {σ : Type} (backend : Backend σ)

def run (statement : Statement) : Session σ Unit := do
  let _ ← backend.execute statement

def queryFirst (statement : Statement) : Session σ (Option Row) := do
  return (← backend.query statement).head?

end Backend

def Session.ofExcept {σ α : Type} : Except SchemaError α → Session σ α
  | .ok a => pure a
  | .error e => throw e

end SchemaHistory
