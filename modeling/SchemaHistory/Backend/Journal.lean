import SchemaHistory.Backend

/-!
# The journal of a database

A database that only writes down what it is asked to do. It can be told to refuse the statements
whose text has some part in it, and the answers to queries can be put in a queue.
-/

namespace SchemaHistory

/-- What has been recorded, and what is to happen next. -/
structure Journal where
  statements : Array Statement := #[]
  /-- Answers to the queries to come. -/
  answers : List (List Row) := []
  /-- Statements with this text in theirs are refused. -/
  refusedPart : Option String := none
  inTransaction : Bool := false
  committed : Nat := 0
  rolledBack : Nat := 0

def isPartOf (part : List Char) : List Char → Bool
  | [] => part.isEmpty
  | c :: rest => part.isPrefixOf (c :: rest) || isPartOf part rest

namespace Journal

def identity : String := "recording"

def refusal (refusedPart text : String) : SchemaError :=
  .refused identity
    s!"encountered unexpected or invalid data: injected failure on {refusedPart}" text

/-- Writes a statement down, unless it is to be refused. -/
def record (dialect : Dialect) (statement : Statement) : Session Journal Unit := do
  let journal ← get
  let text := statement.text dialect
  match journal.refusedPart with
  | some part => if isPartOf part.toList text.toList then throw (refusal part text)
  | none => pure ()
  set { journal with statements := journal.statements.push statement }

def nextResult : Session Journal (List Row) :=
  modifyGet fun journal =>
    (journal.answers.head?.getD [], { journal with answers := journal.answers.tail })

def begin : Session Journal Unit := do
  let journal ← get
  if journal.inTransaction then throw (.transaction identity .alreadyOpen)
  set { journal with inTransaction := true }

/-- Ends a transaction and counts it. -/
def commit : Session Journal Unit := do
  let journal ← get
  if !journal.inTransaction then throw (.transaction identity .commitWithoutOpen)
  set { journal with inTransaction := false, committed := journal.committed + 1 }

/-- Ends a transaction and counts it. -/
def rollback : Session Journal Unit := do
  let journal ← get
  if !journal.inTransaction then throw (.transaction identity .rollbackWithoutOpen)
  set { journal with inTransaction := false, rolledBack := journal.rolledBack + 1 }

def backend (dialect : Dialect) (now : DateTime) : Backend Journal where
  dialect
  now
  execute statement := do
    record dialect statement
    return 0
  query statement := do
    record dialect statement
    nextResult
  begin
  commit
  rollback

end Journal

end SchemaHistory
