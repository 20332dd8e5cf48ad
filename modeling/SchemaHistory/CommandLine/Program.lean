import SchemaHistory.Backend.LedgerStore
import SchemaHistory.CommandLine.Command
import SchemaHistory.MigrationStore
import SchemaHistory.Plan

/-!
# The program

`Program.run` carries out a command line on files and databases. What it does to both, what it
writes to the console, and how it ends are its answer. Nothing in it touches the system, so it can
be reasoned about like any other function; the outermost layer only reads the workspace and writes
it back.
-/

namespace SchemaHistory

inductive CommandError where
  | migration (cause : MigrationError)
  /-- The file with the declared models cannot be read. -/
  | file (fault : FileFault)
  /-- The file with the declared models does not hold declarations. -/
  | invalidDeclarations
  | unreachable (database : String)
deriving DecidableEq

def CommandError.message : CommandError → String
  | migration cause => cause.message
  | file fault => fault.message
  | invalidDeclarations => "the declarations of models cannot be read"
  | unreachable database =>
    s!"database {database}: cannot connect: error returned from database: (code: 14) " ++
      "unable to open database file"

structure Workspace where
  tree : FileTree
  databases : Named LedgerStore := []

namespace Program

structure Outcome where
  code : Nat
  lines : List Line := []
  error : Option CommandError := none

/-! ### Databases by path -/

/-- The path of the file of a database, or nothing for one that is gone after use. -/
def databasePath? (database : String) : Option String :=
  let afterScheme := match database.toList with
    | 's' :: 'q' :: 'l' :: 'i' :: 't' :: 'e' :: ':' :: rest => rest
    | rest => rest
  let path := match afterScheme with
    | '/' :: '/' :: rest => rest
    | rest => rest
  match String.ofList (path.takeWhile (· ≠ '?')) with
  | "" | ":memory:" => none
  | path => some (Path.ofPlaces (Path.places path))

def newDatabase : LedgerStore := { created := false }

/-- Whether the file of a database is there or can be created. -/
def canOpen (tree : FileTree) (path : String) : Bool :=
  match tree.find (Path.ofPlaces (Path.places path).dropLast), tree.find path with
  | .ok .directory, .ok .directory => false
  | .ok .directory, _ => true
  | _, _ => false

/-- Opens the database with the given path, a new one if there is none. -/
def openDatabase? (workspace : Workspace) : Option String → Option LedgerStore
  | none => some newDatabase
  | some path =>
    match workspace.databases.get? path with
    | some database => some database
    | none => if canOpen workspace.tree path then some newDatabase else none

def keepDatabase (workspace : Workspace) (path : Option String) (database : LedgerStore) :
    Workspace :=
  match path with
  | none => workspace
  | some path => { workspace with
      databases := workspace.databases.set path { database with journal := {} } }

/-- Does some work on a database, once the given lines are written. -/
def withDatabase (invocation : Invocation) (now : DateTime) (dryRun : Bool) (lines : List Line)
    (work : Migrator LedgerStore → Run LedgerStore Unit) (workspace : Workspace) :
    Outcome × Workspace :=
  let migrator : Migrator LedgerStore := { backend := LedgerStore.backend .sqlite now, dryRun }
  let path := databasePath? invocation.database
  match openDatabase? workspace path with
  | none => ({ code := 1, lines, error := some (.unreachable invocation.database) }, workspace)
  | some database =>
    match work migrator { database, lines := lines.toArray } with
    | .ok () transcript =>
      ({ code := 0, lines := transcript.lines.toList },
        keepDatabase workspace path transcript.database)
    | .error e transcript =>
      ({ code := 1, lines := transcript.lines.toList, error := some (.migration e) },
        keepDatabase workspace path transcript.database)

/-! ### Migrating and rolling back -/

def announceDryRun {σ : Type} (dryRun : Bool) : Run σ Unit := do
  if dryRun then
    Run.emit (.message .info "Dry run mode - SQL will be printed but not executed." [])

def print (text : String) : Run LedgerStore Unit := Run.emit (.output text)

def createLedger (migrator : Migrator LedgerStore) : Run LedgerStore Unit := do
  migrator.init
  Run.emit (.message .info "Migrations table created successfully." [])

def migrate {σ : Type} (store : MigrationStore) (tree : FileTree) (app target : Option String)
    (migrator : Migrator σ) : Run σ Unit := do
  migrator.init
  announceDryRun migrator.dryRun
  Plan.migrate migrator (← Run.ofExcept (store.readAll tree)) app target

def rollback (migrations : List Migration) (app target : String)
    (migrator : Migrator LedgerStore) : Run LedgerStore Unit := do
  migrator.init
  announceDryRun migrator.dryRun
  let _ ← migrator.rollback app migrations target

/-! ### Showing what is applied -/

def statusLine (status : Migrator.Status) : String :=
  if !status.applied then s!" [ ] {status.name}"
  else match status.since with
    | none => s!" [X] {status.name}"
    | some moment =>
      let shown : DateTime := { moment with time := moment.time.wholeSeconds }
      let text := String.ofList (shown.text ' ')
      s!" [X] {status.name} ({text})"

def showApp (store : MigrationStore) (tree : FileTree) (migrator : Migrator LedgerStore)
    (app : String) : Run LedgerStore Unit := do
  let migrations ← Run.ofExcept (store.load tree app)
  print app
  (← migrator.status app migrations).forM fun status => print (statusLine status)
  print ""

def showMigrations (store : MigrationStore) (tree : FileTree) (app : Option String)
    (migrator : Migrator LedgerStore) : Run LedgerStore Unit := do
  migrator.init
  let apps ← match app with
    | some app => pure [app]
    | none => Run.ofExcept (store.apps tree)
  if apps.isEmpty then Run.emit (.message .info "No migrations found." [])
  else apps.forM (showApp store tree migrator)

/-! ### Making migrations -/

def readDeclarations (tree : FileTree) (path : String) :
    Except CommandError (List Declaration) := do
  let text ← (tree.read path).mapError .file
  match Declaration.readAll? text with
  | some declarations => return declarations
  | none => throw .invalidDeclarations

def alteredLine (altered : AppSchema.FieldChange) : Line :=
  .message .warning
    "Field definition changed; altering fields is not supported, change ignored"
    [("model", altered.model), ("field", altered.field)]

/-- The fields of declared models that the migrations of an app define differently. -/
def fieldChanges (store : MigrationStore) (tree : FileTree) (app : String)
    (declarations : List Declaration) : Except MigrationError (List AppSchema.FieldChange) := do
  let state ← AppSchema.replay app (← store.load tree app)
  return state.altered (← MigrationStore.buildAll app declarations)

abbrev FileRun := EStateM CommandError (FileTree × List Line)

def tell (lines : List Line) : FileRun Unit :=
  modify fun (tree, told) => (tree, told ++ lines)

def ofResult {α : Type} : Except MigrationError α → FileRun α
  | .ok a => pure a
  | .error e => throw (.migration e)

/-- Writes a migration into its file. The answer is the path. -/
def writeFile (store : MigrationStore) (migration : Migration) : FileRun String :=
  fun (tree, told) =>
    match store.write migration tree with
    | .ok path tree => .ok path (tree, told)
    | .error e tree => .error (.migration e) (tree, told)

def makeMigrations (store : MigrationStore) (app models : String) (label : Option String)
    (dryRun : Bool) : FileRun Unit := do
  let (tree, _) ← get
  let declarations ← match readDeclarations tree models with
    | .ok declarations => pure declarations
    | .error e => throw e
  tell ((← ofResult (fieldChanges store tree app declarations)).map alteredLine)
  match ← ofResult (store.make tree app declarations label) with
  | none => tell [.message .info "No changes detected" [("app", app)]]
  | some migration => do
    tell (migration.operations.map fun operation =>
      .message .info s!"  - {operation.description}" [])
    if dryRun then
      tell [.output s!"Would create migration: {migration.app}/{migration.name}", .output "",
        .output migration.text]
    else
      let path ← writeFile store migration
      tell [.message .info s!"Created migration: {path}" []]

/-! ### Commands -/

def statementLines (store : MigrationStore) (tree : FileTree) (now : DateTime)
    (app migration dialect : String) (reverse : Bool) : Except MigrationError (List Line) := do
  let migrations ← store.load tree app
  let statements ← Migrator.migrationStatements dialect now app migrations migration reverse
  return statements.map fun statement => .output (statement ++ ";")

def carryOut (invocation : Invocation) (now : DateTime) (workspace : Workspace) :
    Outcome × Workspace :=
  let store : MigrationStore := { directory := invocation.directory }
  let tree := workspace.tree
  match invocation.command with
  | .init =>
    withDatabase invocation now false [.message .info "Initializing migrations system..." []]
      createLedger workspace
  | .migrate app target dryRun =>
    withDatabase invocation now dryRun [] (migrate store tree app target) workspace
  | .rollback app target dryRun =>
    match store.load tree app with
    | .error e => ({ code := 1, error := some (.migration e) }, workspace)
    | .ok [] => ({ code := 1, error := some (.migration (.unknownApp app)) }, workspace)
    | .ok migrations =>
      withDatabase invocation now dryRun [] (rollback migrations app target) workspace
  | .showMigrations app =>
    withDatabase invocation now false [] (showMigrations store tree app) workspace
  | .makeMigrations app models label dryRun =>
    match makeMigrations store app models label dryRun (tree, []) with
    | .ok () (tree, lines) => ({ code := 0, lines }, { workspace with tree })
    | .error e (tree, lines) => ({ code := 1, lines, error := some e }, { workspace with tree })
  | .sqlMigrate app migration dialect reverse =>
    match statementLines store tree now app migration dialect reverse with
    | .ok lines => ({ code := 0, lines }, workspace)
    | .error e => ({ code := 1, error := some (.migration e) }, workspace)

/-- Carries out a command line. One that cannot be read ends with code 2. -/
def run (arguments : List String) (now : DateTime) (workspace : Workspace) :
    Outcome × Workspace :=
  match Invocation.read? {} arguments with
  | some invocation => carryOut invocation now workspace
  | none => ({ code := 2 }, workspace)

end Program

end SchemaHistory
