import SchemaHistory.MigrationError
import SchemaHistory.Named

/-!
# Trees of files

A tree of directories and text files, with what reading and writing them needs. A path is a text;
the places it leads through are the names between its slashes. Reading fails for the reasons for
which a file system fails: something is not there, is a directory, is none, or has a name that is
too long.
-/

namespace SchemaHistory

inductive FileNode where
  | directory
  /-- A file. Its text is missing if it is not UTF-8. -/
  | file (text : Option String)
deriving DecidableEq

/-- The directories and files below a root, by the names that lead to them. -/
structure FileTree where
  nodes : List (List String × FileNode) := []

namespace Path

/-! ### Paths -/

/-- The path of a name in a directory. A name that begins with a slash is a path of its own. -/
def join (directory name : String) : String :=
  if name.startsWith "/" || directory.isEmpty then name
  else if directory.endsWith "/" then directory ++ name
  else s!"{directory}/{name}"

/-- Goes one place on: two dots lead back, from the start to a place of that name, and from the root
nowhere. -/
def stepTo (places : List String) (name : String) : List String :=
  if name = "" ∨ name = "." then places
  else if name = ".." then
    match places.getLast? with
    | none | some ".." => places ++ [name]
    | some "/" => places
    | some _ => places.dropLast
  else places ++ [name]

/-- The places a path leads through. An absolute path begins at a place of its own. -/
def places (path : String) : List String :=
  let start := if path.startsWith "/" then ["/"] else []
  ((path.toList.splitOn '/').map String.ofList).foldl stepTo start

def ofPlaces : List String → String
  | "/" :: names => "/" ++ "/".intercalate names
  | names => "/".intercalate names

/-- Splits a file name at its last dot. A dot in front begins no extension. -/
def splitName (name : String) : String × Option String :=
  let cs := name.toList
  let after := (cs.reverse.takeWhile (· ≠ '.')).reverse
  let before := cs.take (cs.length - after.length - 1)
  if after.length = cs.length || before.isEmpty then (name, none)
  else (String.ofList before, some (String.ofList after))

end Path

namespace FileTree

/-- The most bytes a name may have. -/
def nameLimit : Nat := 255

/-! ### Following a path -/

/-- The node at given places, which are names of nodes in the tree. -/
def at? (tree : FileTree) (places : List String) : Option FileNode :=
  (tree.nodes.find? (·.1 = places)).map (·.2)

def follow (tree : FileTree) (done : List String) (node : FileNode) :
    List String → Except FileFault FileNode
  | [] => .ok node
  | name :: rest =>
    match node with
    | .file _ => .error .notADirectory
    | .directory =>
      if nameLimit < name.utf8ByteSize then .error .nameTooLong
      else if name.toList.contains '\x00' then .error .invalidName
      else match tree.at? (done ++ [name]) with
        | none => .error .notFound
        | some next => tree.follow (done ++ [name]) next rest

def find (tree : FileTree) (path : String) : Except FileFault FileNode :=
  tree.follow [] .directory (Path.places path)

def has (tree : FileTree) (path : String) : Bool := (tree.find path).isOk

def put (places : List String) (node : FileNode) (tree : FileTree) : FileTree :=
  ⟨tree.nodes.filter (·.1 ≠ places) ++ [(places, node)]⟩

def inside (tree : FileTree) (directory : List String) : Named FileNode :=
  tree.nodes.filterMap fun (places, node) =>
    match places.getLast? with
    | some name => if places.dropLast = directory then some (name, node) else none
    | none => none

/-! ### Reading and writing -/

/-- The names in a directory with what stands there, in the order of names. -/
def entries (tree : FileTree) (path : String) : Except FileFault (Named FileNode) := do
  match ← tree.find path with
  | .file _ => .error .notADirectory
  | .directory =>
    let inside := tree.inside (Path.places path)
    return inside.foldl (fun sorted (name, node) => sorted.insert name node) []

def read (tree : FileTree) (path : String) : Except FileFault String := do
  match ← tree.find path with
  | .directory => .error .isADirectory
  | .file none => .error .invalidText
  | .file (some text) => .ok text

/-- Creates the directories that names lead to, as far as they are missing. -/
def makeDirectoriesFrom (tree : FileTree) (done : List String) :
    List String → Except FileFault FileTree
  | [] => .ok tree
  | name :: rest =>
    match tree.follow done .directory [name] with
    | .ok .directory => tree.makeDirectoriesFrom (done ++ [name]) rest
    | .ok (.file _) => .error (if rest.isEmpty then .alreadyExists else .notADirectory)
    | .error .notFound =>
      (tree.put (done ++ [name]) .directory).makeDirectoriesFrom (done ++ [name]) rest
    | .error fault => .error fault

/-- Creates a directory and those it is in, as far as they are missing. -/
def makeDirectories (tree : FileTree) (path : String) : Except FileFault FileTree :=
  tree.makeDirectoriesFrom [] (Path.places path)

def write (tree : FileTree) (path text : String) : Except FileFault FileTree :=
  match tree.find path with
  | .ok .directory => .error .isADirectory
  | .ok (.file _) | .error .notFound =>
    .ok (tree.put (Path.places path) (.file (some text)))
  | .error fault => .error fault

def isBelow (directory places : List String) : Bool :=
  directory.isPrefixOf places && directory.length < places.length

/-- The text files below a directory, by path, in the order of paths. -/
def textsBelow (tree : FileTree) (path : String) : Named String :=
  let texts : Named String := tree.nodes.filterMap fun (places, node) =>
    match node with
    | .file (some text) =>
      if isBelow (Path.places path) places then some (Path.ofPlaces places, text) else none
    | _ => none
  texts.foldl (fun sorted (path, text) => sorted.insert path text) []

end FileTree

end SchemaHistory
