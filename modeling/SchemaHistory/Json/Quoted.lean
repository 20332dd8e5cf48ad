/-!
# Text in double quotes

Inside the quotes of a JSON string a quote, a backslash and the control characters below the blank
are written with a backslash; every other character stands for itself. Reading also knows the
solidus, and `\u` with four hexadecimal digits, where two such escapes may form a surrogate pair.
The inside may also be skipped, and then it does not matter whether such pairs are complete.
-/

namespace SchemaHistory.Json.Quoted

def hexDigit (n : Nat) : Char := Nat.digitChar n

def encodeChar (c : Char) : List Char :=
  if c == '"' then ['\\', '"']
  else if c == '\\' then ['\\', '\\']
  else if c == '\x08' then ['\\', 'b']
  else if c == '\t' then ['\\', 't']
  else if c == '\n' then ['\\', 'n']
  else if c == '\x0c' then ['\\', 'f']
  else if c == '\r' then ['\\', 'r']
  else if c.toNat < 0x20 then
    ['\\', 'u', '0', '0', hexDigit (c.toNat / 16), hexDigit (c.toNat % 16)]
  else [c]

def encode (cs : List Char) : List Char := cs.flatMap encodeChar

def hexValue? (c : Char) : Option Nat :=
  if '0' ≤ c ∧ c ≤ '9' then some (c.toNat - '0'.toNat)
  else if 'a' ≤ c ∧ c ≤ 'f' then some (c.toNat - 'a'.toNat + 10)
  else if 'A' ≤ c ∧ c ≤ 'F' then some (c.toNat - 'A'.toNat + 10)
  else none

def unit? (a b c d : Char) : Option Nat := do
  return (((← hexValue? a) * 16 + (← hexValue? b)) * 16 + (← hexValue? c)) * 16 + (← hexValue? d)

/-- The character that a backslash before a letter other than `u` stands for. -/
def escaped? : Char → Option Char
  | '"' => some '"'
  | '\\' => some '\\'
  | '/' => some '/'
  | 'b' => some '\x08'
  | 'f' => some '\x0c'
  | 'n' => some '\n'
  | 'r' => some '\r'
  | 't' => some '\t'
  | _ => none

/-- Reads the inside of the quotes. `high` is the first half of a surrogate pair whose second half
must come next. -/
def decodeAfter (high : Option Nat) : List Char → Option (List Char)
  | [] => if high.isNone then some [] else none
  | '\\' :: 'u' :: a :: b :: c :: d :: rest =>
    match unit? a b c d, high with
    | none, _ => none
    | some unit, some first =>
      if 0xDC00 ≤ unit ∧ unit < 0xE000 then
        (decodeAfter none rest).map
          (Char.ofNat (0x10000 + (first - 0xD800) * 0x400 + (unit - 0xDC00)) :: ·)
      else none
    | some unit, none =>
      if 0xD800 ≤ unit ∧ unit < 0xDC00 then decodeAfter (some unit) rest
      else if 0xDC00 ≤ unit ∧ unit < 0xE000 then none
      else (decodeAfter none rest).map (Char.ofNat unit :: ·)
  | '\\' :: c :: rest =>
    if high.isSome then none
    else match escaped? c with
      | some plain => (decodeAfter none rest).map (plain :: ·)
      | none => none
  | c :: rest =>
    if high.isSome || c == '\\' || c.toNat < 0x20 then none
    else (decodeAfter none rest).map (c :: ·)

/-- Reads the inside of the quotes. Control characters, unknown escapes and lone halves of
surrogate pairs are refused. -/
def decode (cs : List Char) : Option (List Char) := decodeAfter none cs

/-- Whether the inside of the quotes can be skipped. Lone halves of surrogate pairs do no harm
there. -/
def canSkip : List Char → Bool
  | [] => true
  | '\\' :: 'u' :: a :: b :: c :: d :: rest => (unit? a b c d).isSome && canSkip rest
  | '\\' :: c :: rest => (escaped? c).isSome && canSkip rest
  | c :: rest => c != '\\' && 0x20 ≤ c.toNat && canSkip rest

end SchemaHistory.Json.Quoted
