import SchemaHistory.Backend.Journal
import SchemaHistory.Ledger

/-!
# A store for the ledger

A journal that also keeps the rows of the ledger: it adds, removes and finds them as the
statements ask, and a transaction that is rolled back gives them back. All other tables are only
recorded.
-/

namespace SchemaHistory

/-- A journal with the rows of the ledger. -/
structure LedgerStore where
  journal : Journal := {}
  /-- Whether the ledger has been created. -/
  created : Bool := true
  rows : List Row := []
  /-- The rows when the open transaction began. -/
  saved : List Row := []
  /-- The number of the next row. Numbers are not used twice. -/
  nextId : Nat := 1

namespace LedgerStore

def ofRows (rows : List Row) : LedgerStore := { rows, nextId := rows.length + 1 }

def onJournal {α : Type} (session : Session Journal α) : Session LedgerStore α := fun store =>
  match session store.journal with
  | .ok a journal => .ok a { store with journal }
  | .error e journal => .error e { store with journal }

def argument (arguments : List Value) (i : Nat) : Value := arguments[i]?.getD .null

def holds (row : Row) (column : String) (value : Value) : Bool :=
  match row.get? column with
  | some held => held.same value
  | none => false

def addRow (arguments : List Value) (store : LedgerStore) : LedgerStore :=
  let row : Row := [("app", argument arguments 0), ("applied", argument arguments 3),
    ("id", .int (Int64.ofNat store.nextId)), ("name", argument arguments 1),
    ("number", argument arguments 2)]
  { store with rows := store.rows ++ [row], nextId := store.nextId + 1 }

def removeRows (arguments : List Value) (store : LedgerStore) : Nat × LedgerStore :=
  let isRemoved (row : Row) :=
    holds row "app" (argument arguments 0) && holds row "name" (argument arguments 1)
  (store.rows.countP isRemoved, { store with rows := store.rows.filter fun row => !isRemoved row })

def findRows (arguments : List Value) (store : LedgerStore) : List Row :=
  store.rows.filter fun row => holds row "app" (argument arguments 0)

/-- Whether a text begins with the given words and the name of the ledger. -/
def begins (words text : String) : Bool :=
  (words.toList ++ quotedName Ledger.table).isPrefixOf text.toList

/-- Whether a statement adds a row to the ledger. Of a text, only how it begins is looked at. -/
def adds : Statement → Bool
  | .insert table _ => table = Ledger.table
  | .raw text _ => begins "INSERT INTO " text
  | _ => false

def removes : Statement → Bool
  | .delete table _ => table = Ledger.table
  | .raw text _ => begins "DELETE FROM " text
  | _ => false

def creates : Statement → Bool
  | .createTable table _ ifMissing => ifMissing && table = Ledger.table
  | .raw text _ => begins "CREATE TABLE IF NOT EXISTS " text
  | _ => false

def searches : Statement → Bool
  | .select table .. => table = Ledger.table
  | .raw text _ => isPartOf (" FROM ".toList ++ quotedName Ledger.table ++ [' ']) text.toList
  | _ => false

def execute (dialect : Dialect) (statement : Statement) : Session LedgerStore Nat := do
  onJournal (Journal.record dialect statement)
  if adds statement then
    modify (addRow statement.arguments)
    return 1
  else if removes statement then
    modifyGet (removeRows statement.arguments)
  else
    if creates statement then modify fun store => { store with created := true }
    return 0

/-- The error for a query of a ledger that has not been created. -/
def noLedger (text : String) : SchemaError :=
  .refused "default" s!"no such table: {Ledger.table}" text

def query (dialect : Dialect) (statement : Statement) : Session LedgerStore (List Row) := do
  onJournal (Journal.record dialect statement)
  let result ← onJournal Journal.nextResult
  if searches statement then
    let store ← get
    if store.created then return findRows statement.arguments store
    else throw (noLedger (statement.text dialect))
  else return result

def begin : Session LedgerStore Unit := do
  onJournal Journal.begin
  modify fun store => { store with saved := store.rows }

/-- Ends a transaction and gives back the rows as they were when it began. -/
def rollback : Session LedgerStore Unit := do
  onJournal Journal.rollback
  modify fun store => { store with rows := store.saved }

def backend (dialect : Dialect) (now : DateTime) : Backend LedgerStore where
  dialect
  now
  execute := execute dialect
  query := query dialect
  begin
  commit := onJournal Journal.commit
  rollback

end LedgerStore

end SchemaHistory
