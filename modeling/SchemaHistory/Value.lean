import SchemaHistory.Calendar.Reading
import SchemaHistory.Json.Tree

/-!
# Values

`Value` is what a column of a row can hold and what a statement can be given as an argument, and
`ColumnType` is the type of a column. A value has two texts: a JSON form for documents, and a
literal for SQL. Dates and times are JSON strings, so reading a document gives a text first;
`Value.coerce` then turns it into what the type of the column asks for.
-/

namespace SchemaHistory

inductive ColumnType where
  | integer
  | varchar (length : UInt64)
  | text
  | boolean
  | double
  | date
  | time
  | dateTime
deriving DecidableEq

/-- A value in a column or an argument of a statement. -/
inductive Value where
  | null
  | bool (value : Bool)
  | int (value : Int64)
  | float (value : Binary64)
  | text (value : String)
  | date (value : Date)
  | time (value : Time)
  | dateTime (value : DateTime)
deriving DecidableEq

namespace Value

/-- Whether two values are the same kind of value and equal, floats being compared as numbers. -/
def same : Value → Value → Bool
  | float a, float b => a.sameNumber b
  | a, b => a == b

def isNull : Value → Bool
  | null => true
  | _ => false

/-! ### SQL literals -/

/-- A text between the given marks, every mark inside it written twice. -/
def quoted (mark : Char) (cs : List Char) : List Char :=
  mark :: cs.flatMap (fun c => if c = mark then [mark, mark] else [c]) ++ [mark]

def bare : Value → List Char
  | null => "NULL".toList
  | bool true => "TRUE".toList
  | bool false => "FALSE".toList
  | int n => Json.integerText n.toInt
  | float x => (x.text .plain).toList
  | text s => s.toList
  | date d => d.text
  | time t => t.text
  | dateTime m => m.text ' '

def isQuoted : Value → Bool
  | text _ | date _ | time _ | dateTime _ => true
  | _ => false

def literal (value : Value) : List Char :=
  if value.isQuoted then quoted '\'' value.bare else value.bare

/-! ### JSON -/

def toScalar : Value → Json.Scalar
  | null => .null
  | bool b => .bool b
  | int n => .integer n.toInt
  | float x => .float x
  | text s => .string s
  | date d => .string (String.ofList d.text)
  | time t => .string (String.ofList t.text)
  | dateTime m => .string (String.ofList (m.text 'T'))

/-- An integer of a document: an integer if it fits 64 bits with a sign, otherwise a float. -/
def ofInteger (n : Int) : Value :=
  if Int64.minValue.toInt ≤ n ∧ n ≤ Int64.maxValue.toInt then int (Int64.ofInt n)
  else float (.ofDecimal (n < 0) n.natAbs 0)

def ofScalar : Json.Scalar → Value
  | .null => null
  | .bool b => bool b
  | .integer n => ofInteger n
  | .float x => float x
  | .string s => text s

/-- Reads a value of a document. Arrays and objects are no values. -/
def ofJson? : Json → Option Value
  | .scalar scalar => some (ofScalar scalar)
  | _ => none

/-- The date or time that a text stands for in a column of the given type, if it does. -/
def parse? (type : ColumnType) (s : String) : Option Value :=
  match type with
  | .date => (Date.read? s).map date
  | .time => (Time.read? s).map time
  | .dateTime => ((DateTime.readJoined? s).or (DateTime.readSpaced? s)).map dateTime
  | _ => none

/-- Turns a text into the date or time that a column of the given type asks for. Other values, and
texts that are no such thing, stay as they are. -/
def coerce (type : ColumnType) : Value → Value
  | text s => (parse? type s).getD (text s)
  | value => value

end Value

end SchemaHistory
