import SchemaHistory.Named

/-!
# Command line arguments

Options have a long name, most of them also a letter, and either take a value or are flags. A value
follows as the next argument or in the same one, after an equals sign or directly after the letter.
Letters of flags may be joined. No option may be given twice.
-/

namespace SchemaHistory

structure OptionRule where
  name : String
  letter : Option Char
  takesValue : Bool
  /-- Whether a value must have at least one character. -/
  nonEmpty : Bool := false

/-- The options that were given, by name. A flag has the empty text as its value. -/
abbrev GivenOptions := Named String

namespace Arguments

def ruleNamed? (rules : List OptionRule) (name : String) : Option OptionRule :=
  rules.find? (·.name == name)

def ruleLettered? (rules : List OptionRule) (letter : Char) : Option OptionRule :=
  rules.find? (·.letter == some letter)

/-- Adds an option with its value, unless it was given before. -/
def give? (rule : OptionRule) (value : String) (given : GivenOptions) : Option GivenOptions :=
  if given.has rule.name || (rule.nonEmpty && value.isEmpty) then none
  else some (given.set rule.name value)

/-- Whether an argument can be the value of the option before it. A single hyphen can. -/
def isValue (argument : String) : Bool := !argument.startsWith "-" || argument = "-"

/-- What one argument says: options that are complete, and one that waits for its value. -/
abbrev Reading := GivenOptions × Option OptionRule

def readLetters? (rules : List OptionRule) (given : GivenOptions) : List Char → Option Reading
  | [] => some (given, none)
  | letter :: rest => do
    let rule ← ruleLettered? rules letter
    if rule.takesValue then
      match rest with
      | [] => return (given, some rule)
      | '=' :: value => return (← give? rule (String.ofList value) given, none)
      | value => return (← give? rule (String.ofList value) given, none)
    else
      readLetters? rules (← give? rule "" given) rest

def readName? (rules : List OptionRule) (given : GivenOptions) (cs : List Char) :
    Option Reading := do
  let name := cs.takeWhile (· ≠ '=')
  let rule ← ruleNamed? rules (String.ofList name)
  match cs.drop name.length, rule.takesValue with
  | [], true => return (given, some rule)
  | [], false => return (← give? rule "" given, none)
  | _ :: value, true => return (← give? rule (String.ofList value) given, none)
  | _ :: _, false => none

/-- Reads the options at the front of some arguments. The answer has the arguments that follow, the
first of which is no option. Two hyphens end the arguments; nothing may come after them. -/
def readFrom? (rules : List OptionRule) :
    Reading → List String → Option (GivenOptions × List String)
  | (given, none), [] => some (given, [])
  | (_, some _), [] => none
  | (given, some rule), argument :: rest =>
    if isValue argument then do
      readFrom? rules (← give? rule argument given, none) rest
    else none
  | (given, none), argument :: rest =>
    match argument.toList with
    | ['-', '-'] => if rest.isEmpty then some (given, []) else none
    | '-' :: '-' :: name => do readFrom? rules (← readName? rules given name) rest
    | '-' :: letter :: letters => do
      readFrom? rules (← readLetters? rules given (letter :: letters)) rest
    | _ => some (given, argument :: rest)

def read? (rules : List OptionRule) (arguments : List String) :
    Option (GivenOptions × List String) :=
  readFrom? rules ([], none) arguments

def readAll? (rules : List OptionRule) (arguments : List String) : Option GivenOptions :=
  match read? rules arguments with
  | some (given, []) => some given
  | _ => none

end Arguments

end SchemaHistory
