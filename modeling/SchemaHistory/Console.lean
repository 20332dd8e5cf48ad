/-!
# The console

What is written to the console: plain output, and messages of a level with details. A line of output
that holds line ends is several lines on the console. A message begins with its level, and its
details follow the text as pairs of a key and a value.
-/

namespace SchemaHistory

inductive Level where
  | info
  | warning
deriving DecidableEq

/-- The name of a level, in five columns. -/
def Level.label : Level → String
  | info => " INFO"
  | warning => " WARN"

inductive Line where
  | output (text : String)
  | message (level : Level) (text : String) (details : List (String × String))
deriving DecidableEq

namespace Line

def text : Line → String
  | output text => text
  | message level text details =>
    details.foldl (fun done (key, value) => s!"{done} {key}={value}") s!"{level.label} {text}"

/-- Cuts a text at its line ends. `current` is the line being read, last character first. -/
def cutLines (current : List Char) : List Char → List (List Char)
  | [] => [current.reverse]
  | '\n' :: rest => current.reverse :: cutLines [] rest
  | c :: rest => cutLines (c :: current) rest

def onConsole (lines : List Line) : List String :=
  lines.flatMap fun line => (cutLines [] line.text.toList).map String.ofList

end Line

end SchemaHistory
