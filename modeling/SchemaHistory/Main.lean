import SchemaHistory.Backend.LedgerFile
import SchemaHistory.CommandLine.Program
import Std.Time.DateTime

/-!
# The command line

Reads what a command needs from the file system, lets `Program.carryOut` carry the command out, and
brings what it changed back to the file system and to the console. A database is a file that holds
its ledger.
-/

namespace SchemaHistory.CommandLine

def epoch : DateTime := ⟨⟨1970, 1, 1, by decide, by decide, by decide⟩, .midnight⟩

def clock : IO DateTime := do
  let nanoseconds := (← Std.Time.Timestamp.now).toNanosecondsSinceUnixEpoch.val.toNat
  let seconds := nanoseconds / 1000000000
  let day := Std.Time.PlainDate.ofEpochDay ⟨seconds / 86400⟩
  let date := Date.of? day.year.toInt day.month.toNat day.day.toNat
  let time := Time.of? (seconds / 3600 % 24) (seconds / 60 % 60) (seconds % 60)
    (nanoseconds % 1000000000)
  return ⟨date.getD epoch.date, time.getD epoch.time⟩

def defaults : IO Defaults := do
  let usual : Defaults := {}
  return { usual with
    database := (← IO.getEnv "DATABASE_URL").getD usual.database
    directory := (← IO.getEnv "KEEL_MIGRATIONS_DIR").getD usual.directory }

/-- Adds what stands at some places, and what is below it down to a depth. -/
def addBelow (depth : Nat) (places : List String) (tree : FileTree) : IO FileTree := do
  match ← (IO.FS.realPath (Path.ofPlaces places)).toBaseIO with
  | .error _ => return tree
  | .ok path =>
    if !(← path.isDir) then
      return tree.put places (.file (String.fromUTF8? (← IO.FS.readBinFile path)))
    let tree := tree.put places .directory
    match depth with
    | 0 => return tree
    | depth + 1 =>
      (← path.readDir).foldlM
        (fun tree entry => addBelow depth (places ++ [entry.fileName]) tree) tree

/-- Adds what stands at a path and at the places that lead to it, and what is below it down to a
depth. -/
def addPath (depth : Nat) (path : String) (tree : FileTree) : IO FileTree := do
  let places := Path.places path
  let tree ← (List.range places.length).foldlM
    (fun tree count => if count = 0 then pure tree else addBelow 0 (places.take count) tree) tree
  addBelow depth places tree

def modelsFile? : Command → Option String
  | .makeMigrations _ models _ _ => some models
  | _ => none

def readDatabase (path : String) : IO (Named LedgerStore) := do
  match ← (IO.FS.readFile path).toBaseIO with
  | .error _ => return []
  | .ok text =>
    match LedgerStore.read? text with
    | some store => return [(path, store)]
    | none => throw (IO.userError s!"database {path}: file is not a database")

def gather (invocation : Invocation) : IO Workspace := do
  let tree ← addPath 2 invocation.directory {}
  let tree ← match modelsFile? invocation.command with
    | some models => addPath 0 models tree
    | none => pure tree
  match Program.databasePath? invocation.database with
  | none => return { tree }
  | some path =>
    let databases ← readDatabase path
    return { tree := ← addPath 0 path tree, databases }

def writeTree (before after : FileTree) : IO Unit :=
  after.nodes.forM fun (places, node) => do
    if before.nodes.contains (places, node) then return
    match node with
    | .directory => IO.FS.createDirAll (Path.ofPlaces places)
    | .file (some text) => IO.FS.writeFile (Path.ofPlaces places) text
    | .file none => return

/-- Carries out a command and shows how it went. The answer is the exit code. -/
def perform (invocation : Invocation) : IO UInt32 := do
  let workspace ← gather invocation
  let (outcome, after) := Program.carryOut invocation (← clock) workspace
  writeTree workspace.tree after.tree
  after.databases.forM fun (path, store) => IO.FS.writeFile path store.text
  (Line.onConsole outcome.lines).forM IO.println
  if let some error := outcome.error then IO.eprintln s!"Error: {error.message}"
  return outcome.code.toUInt32

end SchemaHistory.CommandLine

def main (arguments : List String) : IO UInt32 := do
  match SchemaHistory.Invocation.read? (← SchemaHistory.CommandLine.defaults) arguments with
  | some invocation => SchemaHistory.CommandLine.perform invocation
  | none =>
    IO.eprintln "error: a command with its options is expected"
    return 2
