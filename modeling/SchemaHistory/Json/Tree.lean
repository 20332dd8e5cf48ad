import SchemaHistory.Json.Token
import SchemaHistory.Named

/-!
# JSON values

A JSON value is a scalar, an array or an object, and an object keeps its members in the order
written, repeated keys included. `Json.tokens` is the value as tokens, `Json.ofTokens?` its inverse,
and `Json.compact` and `Json.pretty` are two ways to lay the tokens out. What a repeated key means
is up to the reader of a value; `Json.merged` gives each key the last value written for it.

A reader may skip members that it does not know, and what it skips need not stand for anything. So
that part of a document is `Json.unread`, which no reader of values accepts.
-/

namespace SchemaHistory

inductive Json where
  | scalar (value : Json.Scalar)
  | array (items : List Json)
  | object (members : List (String × Json))
  /-- What can be skipped but not read: a number too large for a float, a text with a lone half of a
  surrogate pair, an object with such a text for a key, or an array or object that is too deep. -/
  | unread

namespace Json

abbrev null : Json := .scalar .null

abbrev bool (value : Bool) : Json := .scalar (.bool value)

abbrev string (value : String) : Json := .scalar (.string value)

abbrev integer (value : Int) : Json := .scalar (.integer value)

mutual

def tokens : Json → List Token
  | scalar value => [.scalar value]
  | array items => .openArray :: itemTokens items ++ [.closeArray]
  | object members => .openObject :: memberTokens members ++ [.closeObject]
  | unread => [.hugeNumber]

def itemTokens : List Json → List Token
  | [] => []
  | [item] => tokens item
  | item :: next :: rest => tokens item ++ .comma :: itemTokens (next :: rest)

def memberTokens : List (String × Json) → List Token
  | [] => []
  | [(key, value)] => .scalar (.string key) :: .colon :: tokens value
  | (key, value) :: next :: rest =>
    .scalar (.string key) :: .colon :: tokens value ++ .comma :: memberTokens (next :: rest)

end

/-- The text of a value without any blanks between tokens. -/
def compact (json : Json) : String := String.ofList (json.tokens.flatMap Token.text)

/-- A new line, indented by two blanks a level. -/
def newLine (level : Nat) : List Char := '\n' :: List.replicate (2 * level) ' '

mutual

/-- The text of a value that stands at a given level, its own first line already indented. -/
def prettyAt (level : Nat) : Json → List Char
  | scalar value => value.text
  | array [] => ['[', ']']
  | array items => '[' :: prettyItems (level + 1) items ++ newLine level ++ [']']
  | object [] => ['\x7b', '\x7d']
  | object members => '\x7b' :: prettyMembers (level + 1) members ++ newLine level ++ ['\x7d']
  | unread => Token.hugeNumber.text

/-- The values of an array, one a line. -/
def prettyItems (level : Nat) : List Json → List Char
  | [] => []
  | [item] => newLine level ++ prettyAt level item
  | item :: next :: rest =>
    newLine level ++ prettyAt level item ++ ',' :: prettyItems level (next :: rest)

/-- The members of an object, one a line. -/
def prettyMembers (level : Nat) : List (String × Json) → List Char
  | [] => []
  | [(key, value)] =>
    newLine level ++ (Scalar.string key).text ++ ':' :: ' ' :: prettyAt level value
  | (key, value) :: next :: rest =>
    newLine level ++ (Scalar.string key).text ++ ':' :: ' ' :: prettyAt level value
      ++ ',' :: prettyMembers level (next :: rest)

end

/-- The text of a value with every item and member on a line of its own. -/
def pretty (json : Json) : String := String.ofList (prettyAt 0 json)

/-! ### From tokens to values -/

/-- An array or object that is not closed yet. What it holds so far is kept last first. An object
holds nothing any more once it has a key that cannot be read. -/
inductive Frame where
  /-- An array, one of whose values is being read. -/
  | items (done : List Json)
  /-- An object, between members. -/
  | members (done : Option (List (String × Json)))
  /-- An object, in the member with the given key. -/
  | member (done : Option (List (String × Json))) (key : String)

inductive Expecting where
  /-- A value, or also the end of the array if it has just been opened. -/
  | value (orClose : Bool)
  /-- A key, or also the end of the object if it has just been opened. -/
  | key (orClose : Bool)
  | colon
  /-- What can follow a value that is complete. -/
  | after (json : Json)

/-- The most arrays and objects that may be open at a time where a value is read. -/
def depthLimit : Nat := 127

/-- The array or object that is closed while the given ones stay open. -/
def closed (frames : List Frame) (json : Json) : Json :=
  if frames.length < depthLimit then json else unread

/-- The object with the given members, last first, if their keys can be read. -/
def ofMembers : Option (List (String × Json)) → Json
  | some done => object done.reverse
  | none => unread

def place? : List Frame → Expecting → Token → Option (List Frame × Expecting)
  | frames, .value _, .scalar value => some (frames, .after (scalar value))
  | frames, .value _, .hugeNumber => some (frames, .after unread)
  | frames, .value _, .brokenText => some (frames, .after unread)
  | frames, .value _, .openArray => some (.items [] :: frames, .value true)
  | frames, .value _, .openObject => some (.members (some []) :: frames, .key true)
  | .items [] :: frames, .value true, .closeArray =>
    some (frames, .after (closed frames (array [])))
  | .members done :: frames, .key _, .scalar (.string key) =>
    some (.member done key :: frames, .colon)
  | .members _ :: frames, .key _, .brokenText => some (.member none "" :: frames, .colon)
  | .members _ :: frames, .key true, .closeObject =>
    some (frames, .after (closed frames (object [])))
  | frames, .colon, .colon => some (frames, .value false)
  | .items done :: frames, .after json, .comma =>
    some (.items (json :: done) :: frames, .value false)
  | .items done :: frames, .after json, .closeArray =>
    some (frames, .after (closed frames (array (json :: done).reverse)))
  | .member done key :: frames, .after json, .comma =>
    some (.members (done.map ((key, json) :: ·)) :: frames, .key false)
  | .member done key :: frames, .after json, .closeObject =>
    some (frames, .after (closed frames (ofMembers (done.map ((key, json) :: ·)))))
  | _, _, _ => none

/-- Reads the remaining tokens, which must complete the value. -/
def build? : List Frame → Expecting → List Token → Option Json
  | [], .after json, [] => some json
  | _, _, [] => none
  | frames, expecting, token :: rest =>
    (place? frames expecting token).bind fun (frames, expecting) => build? frames expecting rest

def ofTokens? (tokens : List Token) : Option Json := build? [] (.value false) tokens

def read? (s : String) : Option Json := (Token.scan s).bind ofTokens?

/-! ### Values that are read as a whole -/

mutual

def isRead : Json → Bool
  | scalar _ => true
  | array items => itemsAreRead items
  | object members => membersAreRead members
  | unread => false

def itemsAreRead : List Json → Bool
  | [] => true
  | item :: rest => isRead item && itemsAreRead rest

def membersAreRead : List (String × Json) → Bool
  | [] => true
  | (_, value) :: rest => isRead value && membersAreRead rest

end

mutual

/-- The same value with the last value of a repeated key, at the place of the first. -/
def merged : Json → Json
  | scalar value => scalar value
  | array items => array (mergedItems items)
  | object members => object (mergedMembers [] members)
  | unread => unread

def mergedItems : List Json → List Json
  | [] => []
  | item :: rest => merged item :: mergedItems rest

/-- Adds members to those in `done`, `merged` on each. -/
def mergedMembers (done : Named Json) : List (String × Json) → Named Json
  | [] => done
  | (key, value) :: rest => mergedMembers (Named.set key (merged value) done) rest

end

/-- The value with repeated keys merged, if all of it can be read. -/
def whole? (json : Json) : Option Json := if json.isRead then some json.merged else none

end Json

end SchemaHistory
