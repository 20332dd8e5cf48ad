import SchemaHistory.Lookup
import SchemaHistory.Value

/-!
# Dialects of SQL

What differs from one database to another: placeholders, the names of types, the spelling of some
literals and operators, and which changes to a table the database can make in place. The last is
told by `Capabilities`, and where a change cannot be made in place the table is built anew.
-/

namespace SchemaHistory

/-- Which changes a database can make to a table, and whether it can take them back. -/
structure Capabilities where
  /-- Columns can be dropped. -/
  dropsColumns : Bool
  /-- A column can be made to refuse nulls. -/
  altersNullability : Bool
  /-- Changes to tables are part of a transaction. -/
  transactional : Bool
deriving DecidableEq

inductive Dialect where
  | sqlite
  | postgres
  /-- Standard spellings, with the type names of SQLite and placeholders `:1`, `:2` and so on. -/
  | generic (name : String) (capabilities : Capabilities)
deriving DecidableEq

namespace Dialect

def name : Dialect → String
  | sqlite => "sqlite"
  | postgres => "postgres"
  | generic name _ => name

def byName? : String → Option Dialect
  | "sqlite" | "sqlite3" => some sqlite
  | "postgres" | "postgresql" => some postgres
  | _ => none

def capabilities : Dialect → Capabilities
  | sqlite => ⟨false, false, true⟩
  | postgres => ⟨true, true, true⟩
  | generic _ capabilities => capabilities

/-- The placeholder of the argument with a number, the first being 1. -/
def placeholder : Dialect → Nat → List Char
  | sqlite, _ => ['?']
  | postgres, number => '$' :: Text.digitsOfNumber number
  | generic .., number => ':' :: Text.digitsOfNumber number

def operator : Dialect → Comparison → List Char
  | postgres, .notEqual => ['<', '>']
  | _, comparison => comparison.token.toList

/-- The name of a type where types only say how a value is stored. -/
def storageName : ColumnType → List Char
  | .integer | .boolean => "INTEGER".toList
  | .double => "REAL".toList
  | .varchar _ | .text | .date | .time | .dateTime => "TEXT".toList

/-- The name of a type where types limit what a column can hold. -/
def exactName : ColumnType → List Char
  | .integer => "BIGINT".toList
  | .varchar length => "VARCHAR(".toList ++ Text.digitsOfNumber length.toNat ++ [')']
  | .text => "TEXT".toList
  | .boolean => "BOOLEAN".toList
  | .double => "DOUBLE PRECISION".toList
  | .date => "DATE".toList
  | .time => "TIME".toList
  | .dateTime => "TIMESTAMP".toList

def typeText : Dialect → ColumnType → List Char
  | postgres, type => exactName type
  | _, type => storageName type

/-- What follows the name of a column that the database counts up. -/
def countedColumn : Dialect → List Char
  | sqlite => "INTEGER NOT NULL PRIMARY KEY AUTOINCREMENT".toList
  | postgres => "BIGSERIAL PRIMARY KEY".toList
  | generic .. => "INTEGER PRIMARY KEY".toList

def literal : Dialect → Value → List Char
  | sqlite, .bool true => ['1']
  | sqlite, .bool false => ['0']
  | _, value => value.literal

end Dialect

def quotedName (name : String) : List Char := Value.quoted '"' name.toList

def joined (separator : String) (parts : List (List Char)) : List Char :=
  separator.toList.intercalate parts

end SchemaHistory
