import SchemaHistory.Calendar.Date
import SchemaHistory.Text.Blank

/-!
# Reading dates and times

Readers take more than the writers produce: white space may stand before any number, numbers may be
shorter than written, and the fraction may have any number of digits, those after the ninth being
dropped. There are two forms of a date with a time. The *joined* form has a `T` in between and
allows white space before the marks and at the end, the *spaced* form has white space or nothing in
between and allows none elsewhere but before numbers.
-/

namespace SchemaHistory.Calendar

open Text

/-- A reader takes what it reads off the front of a text. -/
abbrev Scanner (α : Type) := List Char → Option (α × List Char)

def number? (width : Nat) : Scanner Nat := fun cs =>
  let cs := dropBlanks cs
  let digits := (cs.take width).takeWhile Char.isDigit
  if digits.isEmpty then none else some (numberOfDigits digits, cs.drop digits.length)

/-- Reads all digits at the front, of which there must be one. -/
def digits? : Scanner (List Char) := fun cs =>
  let digits := cs.takeWhile Char.isDigit
  if digits.isEmpty then none else some (digits, cs.dropWhile Char.isDigit)

/-- Reads a year, after any white space: at most four digits, or a sign and any number of them. -/
def year? : Scanner Int := fun cs =>
  match dropBlanks cs with
  | '-' :: rest => (digits? rest).map fun (digits, rest) => (-(numberOfDigits digits : Int), rest)
  | '+' :: rest => (digits? rest).map fun (digits, rest) => ((numberOfDigits digits : Int), rest)
  | rest => (number? 4 rest).map fun (n, rest) => ((n : Int), rest)

def mark? (mark : Char) : Scanner Unit
  | c :: rest => if c = mark then some ((), rest) else none
  | [] => none

/-- Skips white space where the form allows it. -/
def skip (allowed : Bool) (cs : List Char) : List Char := if allowed then dropBlanks cs else cs

/-- Reads a date; `loose` allows white space before the marks. -/
def scanDate? (loose : Bool) : Scanner Date := fun cs => do
  let (year, cs) ← year? cs
  let ((), cs) ← mark? '-' (skip loose cs)
  let (month, cs) ← number? 2 cs
  let ((), cs) ← mark? '-' (skip loose cs)
  let (day, cs) ← number? 2 cs
  return (← Date.of? year month day, cs)

def nanosecondsOf (digits : List Char) : Nat :=
  let kept := digits.take 9
  numberOfDigits kept * Nat.pow 10 (9 - kept.length)

def fraction? : Scanner Nat
  | '.' :: rest => (digits? rest).map fun (digits, rest) => (nanosecondsOf digits, rest)
  | rest => some (0, rest)

def scanHourMinute? (loose : Bool) : Scanner (Nat × Nat) := fun cs => do
  let (hour, cs) ← number? 2 cs
  let ((), cs) ← mark? ':' (skip loose cs)
  let (minute, cs) ← number? 2 cs
  return ((hour, minute), cs)

def scanSecond? (loose : Bool) : Scanner (Nat × Nat) := fun cs => do
  let ((), cs) ← mark? ':' (skip loose cs)
  let (second, cs) ← number? 2 cs
  if 60 < second then none
  else
    let (nanosecond, cs) ← fraction? cs
    return ((second, nanosecond), cs)

def scanTime? (loose : Bool) : Scanner Time := fun cs => do
  let ((hour, minute), cs) ← scanHourMinute? loose cs
  let ((second, nanosecond), cs) ← scanSecond? loose cs
  return (← Time.of? hour minute second nanosecond, cs)

/-- What was read, if at most white space is left. -/
def atEnd? {α : Type} : α × List Char → Option α
  | (a, rest) => if (dropBlanks rest).isEmpty then some a else none

def exactEnd? {α : Type} : α × List Char → Option α
  | (a, rest) => if rest.isEmpty then some a else none

end SchemaHistory.Calendar

namespace SchemaHistory

open Calendar

def Date.read? (s : String) : Option Date := (scanDate? true s.toList).bind atEnd?

/-- Reads a text that is a time of day. The seconds may be missing. -/
def Time.read? (s : String) : Option Time := do
  let ((hour, minute), rest) ← scanHourMinute? true s.toList
  let ((second, nanosecond), rest) := (scanSecond? true rest).getD ((0, 0), rest)
  atEnd? (← Time.of? hour minute second nanosecond, rest)

def DateTime.readJoined? (s : String) : Option DateTime := do
  let (date, rest) ← scanDate? true s.toList
  let ((), rest) ← mark? 'T' (Text.dropBlanks rest)
  let (time, rest) ← scanTime? true rest
  atEnd? (⟨date, time⟩, rest)

/-- Reads a date and a time with the given marks, white space or nothing, between them. -/
def DateTime.readStrict? (between : Scanner Unit) (s : String) : Option DateTime := do
  let (date, rest) ← scanDate? false s.toList
  let ((), rest) ← between rest
  let (time, rest) ← scanTime? false rest
  exactEnd? (⟨date, time⟩, rest)

/-- Reads a date and a time with white space or nothing between them. -/
def DateTime.readSpaced? (s : String) : Option DateTime :=
  DateTime.readStrict? (fun rest => some ((), Text.dropBlanks rest)) s

/-- Reads a date and a time with a `T` directly between them, and white space before numbers
only. -/
def DateTime.readTight? (s : String) : Option DateTime := DateTime.readStrict? (mark? 'T') s

end SchemaHistory
