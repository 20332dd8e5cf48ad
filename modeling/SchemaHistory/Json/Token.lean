import SchemaHistory.Json.Scalar

/-!
# Tokens of JSON text

`Token.scan` splits a text into tokens, one character after the other. Outside quotes the six
punctuation marks are tokens of their own, the four blanks separate, and any other run of
characters is one word, which must be a scalar. Numbers and texts that are well formed but stand for
nothing are tokens too, for what holds them may be skipped.
-/

namespace SchemaHistory.Json

inductive Token where
  | openArray
  | closeArray
  | openObject
  | closeObject
  | comma
  | colon
  | scalar (value : Scalar)
  /-- A number too large for a float. -/
  | hugeNumber
  /-- A text with a lone half of a surrogate pair. -/
  | brokenText
deriving DecidableEq

namespace Token

def text : Token → List Char
  | openArray => ['[']
  | closeArray => [']']
  | openObject => ['\x7b']
  | closeObject => ['\x7d']
  | comma => [',']
  | colon => [':']
  | scalar value => value.text
  | hugeNumber => "1e999".toList
  | brokenText => "\"\\ud800\"".toList

def ofMark? : Char → Option Token
  | '[' => some openArray
  | ']' => some closeArray
  | '\x7b' => some openObject
  | '\x7d' => some closeObject
  | ',' => some comma
  | ':' => some colon
  | _ => none

/-- The blanks that may stand between tokens. -/
def isGap (c : Char) : Bool := c == ' ' || c == '\n' || c == '\t' || c == '\r'

/-- What is being read. The characters of an unfinished token are kept last first. -/
inductive Place where
  /-- Between tokens. -/
  | gap
  /-- Inside a word. -/
  | word (seen : List Char)
  /-- Inside quotes. -/
  | quote (seen : List Char)
  /-- Inside quotes, after a backslash. -/
  | backslash (seen : List Char)

/-- Begins at a character that stands outside quotes and ends any word before it. -/
def begin (c : Char) : List Token × Place :=
  match ofMark? c with
  | some token => ([token], .gap)
  | none =>
    if c == '"' then ([], .quote [])
    else if isGap c then ([], .gap)
    else ([], .word [c])

def isWordPart (c : Char) : Bool := (ofMark? c).isNone && c != '"' && !isGap c

/-- The token of a scalar, which may be a number out of range. -/
def ofScalar (value : Scalar) : Token := if value.isInRange then scalar value else hugeNumber

/-- The token of a finished word, given last character first. -/
def ofWord? (seen : List Char) : Option Token := (Scalar.ofWord? seen.reverse).map ofScalar

/-- The token of finished quotes, given last character first. -/
def ofQuote? (seen : List Char) : Option Token :=
  match Quoted.decode seen.reverse with
  | some cs => some (scalar (.string (String.ofList cs)))
  | none => if Quoted.canSkip seen.reverse then some brokenText else none

/-- Reads one character: the tokens it completes, and the place after it. -/
def step : Place → Char → Option (List Token × Place)
  | .gap, c => some (begin c)
  | .word seen, c =>
    if isWordPart c then some ([], .word (c :: seen))
    else do
      let token ← ofWord? seen
      let (tokens, place) := begin c
      return (token :: tokens, place)
  | .quote seen, c =>
    if c == '"' then do return ([← ofQuote? seen], .gap)
    else if c == '\\' then some ([], .backslash (c :: seen))
    else some ([], .quote (c :: seen))
  | .backslash seen, c => some ([], .quote (c :: seen))

/-- The tokens of the rest of a text, from a given place on. -/
def scanFrom (place : Place) : List Char → Option (List Token)
  | [] =>
    match place with
    | .gap => some []
    | .word seen => do return [← ofWord? seen]
    | .quote _ | .backslash _ => none
  | c :: rest => do
    let (tokens, place) ← step place c
    return tokens ++ (← scanFrom place rest)

def scan (s : String) : Option (List Token) := scanFrom .gap s.toList

end Token

end SchemaHistory.Json
