import SchemaHistory.Diff
import SchemaHistory.FileTree

/-!
# Migrations in files

A store is a directory with a directory for each app, where every migration is a JSON file that has
its name. Reading an app checks that names and numbers are in order. `MigrationStore.make` compares
what the migrations of an app lead to with declared models, and puts the difference into a new
migration.
-/

namespace SchemaHistory

/-- Where migrations are kept, and which operations they may hold. -/
structure MigrationStore where
  directory : String
  vocabulary : Vocabulary := Vocabulary.standard

/-- Work on files that may fail half-way. -/
abbrev Filing := EStateM MigrationError FileTree

namespace MigrationStore

variable (store : MigrationStore)

def appDirectory (app : String) : String := Path.join store.directory app

def ofFile {α : Type} (result : Except FileFault α) : Except MigrationError α :=
  result.mapError .file

/-- The apps that have a directory, in the order of their names. -/
def apps (tree : FileTree) : Except MigrationError (List String) := do
  if !tree.has store.directory then return []
  let entries ← ofFile (tree.entries store.directory)
  return Named.names (entries.filter (·.2 = .directory))

/-- Reads the migration in a file, which must have its name and be in the directory of its app. -/
def readFile (tree : FileTree) (app fileName : String) : Except MigrationError Migration := do
  let path := Path.join (store.appDirectory app) fileName
  let text ← ofFile (tree.read path)
  let migration ← (Migration.read store.vocabulary text).mapError (.unreadableFile path)
  if migration.name ≠ (Path.splitName fileName).1 then
    throw (.misnamedFile path migration.name)
  if migration.app ≠ app then throw (.misplacedFile path migration.app)
  return migration

/-- The first number that an earlier one in the list is equal to. -/
def repeatedNumber? (seen : List String) : List Migration → Option String
  | [] => none
  | migration :: rest =>
    if seen.contains migration.number then some migration.number
    else repeatedNumber? (migration.number :: seen) rest

/-- The migrations of an app, in the order of their names. No two may have the same number. -/
def load (tree : FileTree) (app : String) : Except MigrationError (List Migration) := do
  if !tree.has (store.appDirectory app) then return []
  let entries ← ofFile (tree.entries (store.appDirectory app))
  let files := (Named.names entries).filter fun name => (Path.splitName name).2 = some "json"
  let migrations ← files.mapM (store.readFile tree app)
  let migrations := migrations.mergeSort fun a b => !(b.name < a.name)
  match repeatedNumber? [] migrations with
  | some number => throw (.duplicateNumber app number)
  | none => return migrations

def readAll (tree : FileTree) : Except MigrationError (List Migration) := do
  return (← (← store.apps tree).mapM (store.load tree)).flatten

def find (tree : FileTree) (app name : String) : Except MigrationError Migration := do
  match (← store.load tree app).find? (·.name == name) with
  | some migration => return migration
  | none => throw (.notFound app name)

/-- The number after that of the last of some migrations, which are in the order of their names. -/
def numberAfter (migrations : List Migration) : String :=
  MigrationName.numberText ((migrations.getLast?.map (·.rank)).getD 0 + 1)

def freeNumber (tree : FileTree) (app : String) : Except MigrationError String := do
  return numberAfter (← store.load tree app)

def filePath (migration : Migration) : String :=
  Path.join (store.appDirectory migration.app) s!"{migration.name}.json"

/-- Work on files as one on migrations. Where it fails the files are as they were. -/
def update (change : FileTree → Except FileFault FileTree) : Filing Unit := do
  match change (← get) with
  | .ok tree => set tree
  | .error fault => throw (.file fault)

/-- Writes a migration into its file. The answer is the path. -/
def write (migration : Migration) : Filing String := do
  update fun tree => tree.makeDirectories (store.appDirectory migration.app)
  let path := store.filePath migration
  update fun tree => tree.write path migration.text
  return path

def buildAll (app : String) (declarations : List Declaration) :
    Except MigrationError (List Model) :=
  (declarations.mapM (Declaration.build app)).mapError .schema

/-- The label of a migration that is given none: the first migration of an app is its initial
one. -/
def usualLabel (existing : List Migration) : String :=
  if existing.isEmpty then "initial" else "auto"

/-- The migration after the existing ones of an app that leads to the declared models, if they do
not lead there already. It depends on the last of them. -/
def makeAfter (app : String) (existing : List Migration) (declarations : List Declaration)
    (label : Option String) : Except MigrationError (Option Migration) := do
  let state ← AppSchema.replay app existing
  let declared ← buildAll app declarations
  match state.diff declared with
  | [] => return none
  | operations =>
    let number := numberAfter existing
    let label := label.getD (usualLabel existing)
    let migration ← Migration.ofName app s!"{number}_{label}"
    let dependencies := existing.getLast?.toList.map fun last => (app, last.name)
    return some { migration with dependencies, operations }

/-- The migration that an app needs to reach the declared models, if it needs one. -/
def make (tree : FileTree) (app : String) (declarations : List Declaration)
    (label : Option String) : Except MigrationError (Option Migration) := do
  makeAfter app (← store.load tree app) declarations label

end MigrationStore

end SchemaHistory
