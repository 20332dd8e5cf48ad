import SchemaHistory.Backend.LedgerStore
import SchemaHistory.Json.Record

/-!
# Ledgers in files

A store for the ledger is kept in a file as a JSON document: whether the ledger has been created,
the number of the next row, and the rows. Moments become texts there, which the ledger reads as
well.
-/

namespace SchemaHistory.LedgerStore

def rowJson (row : Row) : Json :=
  .object (row.map fun (column, value) => (column, .scalar value.toScalar))

def toJson (store : LedgerStore) : Json :=
  .object [
    ("created", .bool store.created),
    ("next", .integer store.nextId),
    ("rows", .array (store.rows.map rowJson))]

def text (store : LedgerStore) : String := store.toJson.pretty

def rowOf? (json : Json) : Option Row := do
  (← json.asObject?).mapM fun (column, value) => do
    return (column, ← Value.ofJson? value)

def rowsOf? (json : Json) : Option (List Row) := do
  (← json.asArray?).mapM rowOf?

def ofJson? (json : Json) : Option LedgerStore := do
  let [created, next, rows] ← json.record? ["created", "next", "rows"] | none
  return {
    created := ← Json.required Json.asBool? created
    nextId := (← Json.required Json.asUInt64? next).toNat
    rows := ← Json.required rowsOf? rows
  }

def read? (s : String) : Option LedgerStore := (Json.read? s).bind ofJson?

end SchemaHistory.LedgerStore
