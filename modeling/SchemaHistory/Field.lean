import SchemaHistory.Value

/-!
# Fields

A field describes one column of a model: what kind of data it holds, whether it may be null, is the
primary key, unique or indexed, what its column is called, and what it holds by default.
-/

namespace SchemaHistory

inductive FieldKind where
  | integer
  /-- A key that the database counts up. -/
  | auto
  | boolean
  | char (maxLength : UInt64)
  | text
  | float
  | date
  | time
  /-- A moment, stamped by the clock when a row is added or whenever it is changed. -/
  | dateTime (stampedOnAdd stampedOnChange : Bool)
deriving DecidableEq

def FieldKind.columnType : FieldKind → ColumnType
  | integer | auto => .integer
  | boolean => .boolean
  | char maxLength => .varchar maxLength
  | text => .text
  | float => .double
  | date => .date
  | time => .time
  | dateTime .. => .dateTime

def FieldKind.name : FieldKind → String
  | integer => "IntegerField"
  | auto => "AutoField"
  | boolean => "BooleanField"
  | char _ => "CharField"
  | text => "TextField"
  | float => "FloatField"
  | date => "DateField"
  | time => "TimeField"
  | dateTime .. => "DateTimeField"

structure Field where
  kind : FieldKind
  null : Bool := false
  primaryKey : Bool := false
  unique : Bool := false
  index : Bool := false
  /-- The name of the column, if it is not the name of the field. -/
  column : Option String := none
  default : Option Value := none
deriving DecidableEq

namespace Field

/-- A field of a kind as it is declared without any options. A counted key is the primary key. -/
def ofKind (kind : FieldKind) : Field where
  kind
  primaryKey := kind = .auto

def columnType (field : Field) : ColumnType := field.kind.columnType

/-- Whether the database counts the column up. -/
def isCounted (field : Field) : Bool := field.kind = .auto

def isPrimaryKey (field : Field) : Bool := field.primaryKey || field.isCounted

/-- Whether the field asks for an index. A key and a unique column have one anyway. -/
def wantsIndex (field : Field) : Bool := field.index && !(field.isPrimaryKey || field.unique)

def columnName (field : Field) (name : String) : String := field.column.getD name

/-- What the column holds in rows that are older than the column. -/
def filling (now : DateTime) (field : Field) : Option Value :=
  match field.kind with
  | .dateTime stampedOnAdd stampedOnChange =>
    if stampedOnAdd || stampedOnChange then some (.dateTime now) else field.default
  | _ => field.default

/-- Whether two defaults are equal, floats being compared as numbers. -/
def sameDefault : Option Value → Option Value → Bool
  | some a, some b => a.same b
  | none, none => true
  | _, _ => false

/-- Whether two fields are defined alike, floats being compared as numbers. -/
def same (a b : Field) : Bool :=
  { a with default := none } == { b with default := none } && sameDefault a.default b.default

def coerced (field : Field) : Field :=
  { field with default := field.default.map (Value.coerce field.columnType) }

end Field

end SchemaHistory
