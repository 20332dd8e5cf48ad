import SchemaHistory.Condition

/-!
# Statements

A statement to a database is data: what it does, to which tables, columns and rows. Its text in a
dialect and its arguments are two views of it. Values of a row are arguments and never part of a
text; only the defaults in the definition of a column are spelled out as literals.
-/

namespace SchemaHistory

structure Column where
  name : String
  type : ColumnType
  /-- The database counts the column up. -/
  counted : Bool
  key : Bool
  null : Bool
  unique : Bool
  default : Option Value
deriving DecidableEq

namespace Column

def ofField (name : String) (field : Field) : Column where
  name
  type := field.columnType
  counted := field.isCounted
  key := field.isPrimaryKey
  null := field.null
  unique := field.unique
  default := field.default

/-- The definition of a column. A key needs no further constraint, and a counted column nothing
else at all. -/
def definition (dialect : Dialect) (column : Column) : List Char :=
  if column.counted then quotedName column.name ++ ' ' :: dialect.countedColumn
  else
    let constraints :=
      if column.key then ["PRIMARY KEY".toList]
      else (if column.null then [] else ["NOT NULL".toList]) ++
        (if column.unique then ["UNIQUE".toList] else [])
    let default := match column.default with
      | some value => ["DEFAULT ".toList ++ dialect.literal value]
      | none => []
    joined " " (quotedName column.name :: dialect.typeText column.type :: constraints ++ default)

end Column

def Model.tableColumns (model : Model) : List Column :=
  model.fields.map fun (name, field) => .ofField (field.columnName name) field

inductive Statement where
  | createTable (table : String) (columns : List Column) (ifMissing : Bool)
  | dropTable (table : String)
  | renameTable (table newName : String)
  | addColumn (table : String) (column : Column)
  | dropColumn (table column : String)
  /-- Makes a column refuse nulls. -/
  | setNotNull (table column : String)
  | createIndex (index table : String) (columns : List String)
  | dropIndex (index : String)
  /-- Adds the rows of one table to another, column by column. -/
  | copyRows (source target : String) (columns : List String)
  | insert (table : String) (values : List (String × Value))
  | update (table : String) (values : List (String × Value)) (condition : Condition Test)
  | delete (table : String) (condition : Condition Test)
  | select (table : String) (columns : List String) (condition : Condition Test) (orderBy : String)
  /-- Any text with its arguments. -/
  | raw (text : String) (arguments : List Value)
deriving DecidableEq

namespace Statement

def create (model : Model) (ifMissing : Bool) : Statement :=
  .createTable model.table model.tableColumns ifMissing

def nameList (names : List String) : List Char := joined ", " (names.map quotedName)

/-- The placeholders of `count` arguments, the first numbered `start`. -/
def placeholders (dialect : Dialect) (start count : Nat) : List (List Char) :=
  (List.range' start count).map dialect.placeholder

def assignments (dialect : Dialect) (start : Nat) : List String → List (List Char)
  | [] => []
  | column :: rest =>
    (quotedName column ++ " = ".toList ++ dialect.placeholder start)
      :: assignments dialect (start + 1) rest

def chars (dialect : Dialect) : Statement → List Char
  | createTable table columns ifMissing =>
    "CREATE TABLE ".toList ++ (if ifMissing then "IF NOT EXISTS ".toList else []) ++
      quotedName table ++ " (".toList ++ joined ", " (columns.map (·.definition dialect)) ++ [')']
  | dropTable table => "DROP TABLE ".toList ++ quotedName table
  | renameTable table newName =>
    "ALTER TABLE ".toList ++ quotedName table ++ " RENAME TO ".toList ++ quotedName newName
  | addColumn table column =>
    "ALTER TABLE ".toList ++ quotedName table ++ " ADD COLUMN ".toList ++ column.definition dialect
  | dropColumn table column =>
    "ALTER TABLE ".toList ++ quotedName table ++ " DROP COLUMN ".toList ++ quotedName column
  | setNotNull table column =>
    "ALTER TABLE ".toList ++ quotedName table ++ " ALTER COLUMN ".toList ++ quotedName column ++
      " SET NOT NULL".toList
  | createIndex index table columns =>
    "CREATE INDEX ".toList ++ quotedName index ++ " ON ".toList ++ quotedName table ++
      " (".toList ++ nameList columns ++ [')']
  | dropIndex index => "DROP INDEX ".toList ++ quotedName index
  | copyRows source target columns =>
    "INSERT INTO ".toList ++ quotedName target ++ " (".toList ++ nameList columns ++
      ") SELECT ".toList ++ nameList columns ++ " FROM ".toList ++ quotedName source
  | insert table values =>
    "INSERT INTO ".toList ++ quotedName table ++ " (".toList ++ nameList (values.map (·.1)) ++
      ") VALUES (".toList ++ joined ", " (placeholders dialect 1 values.length) ++ [')']
  | update table values condition =>
    "UPDATE ".toList ++ quotedName table ++ " SET ".toList ++
      joined ", " (assignments dialect 1 (values.map (·.1))) ++
      condition.whereText dialect (values.length + 1)
  | delete table condition =>
    "DELETE FROM ".toList ++ quotedName table ++ condition.whereText dialect 1
  | select table columns condition orderBy =>
    "SELECT ".toList ++ nameList columns ++ " FROM ".toList ++ quotedName table ++
      condition.whereText dialect 1 ++ " ORDER BY ".toList ++ quotedName orderBy
  | raw text _ => text.toList

def text (dialect : Dialect) (statement : Statement) : String :=
  String.ofList (statement.chars dialect)

def arguments : Statement → List Value
  | insert _ values => values.map (·.2)
  | update _ values condition => values.map (·.2) ++ condition.arguments
  | delete _ condition | select _ _ condition _ => condition.arguments
  | raw _ arguments => arguments
  | _ => []

end Statement

end SchemaHistory
