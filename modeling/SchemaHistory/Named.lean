/-!
# Things by name

A list of pairs of a name and a thing. Two orders are kept: `set` puts a new name at the end, so
that the order is that of first mention, and `insert` puts it in its place in the order of names.
-/

namespace SchemaHistory

/-- Things by name. -/
abbrev Named (α : Type) := List (String × α)

namespace Named

variable {α : Type}

def get? (name : String) : Named α → Option α
  | [] => none
  | (n, a) :: rest => if n = name then some a else get? name rest

def has (name : String) (things : Named α) : Bool := (things.get? name).isSome

def names (things : Named α) : List String := things.map (·.1)

/-- Gives a name its thing: in its place if the name is there, at the end if not. -/
def set (name : String) (a : α) : Named α → Named α
  | [] => [(name, a)]
  | (n, b) :: rest => if n = name then (n, a) :: rest else (n, b) :: set name a rest

/-- Gives a name its thing in a list that is in the order of names. -/
def insert (name : String) (a : α) : Named α → Named α
  | [] => [(name, a)]
  | (n, b) :: rest =>
    if name < n then (name, a) :: (n, b) :: rest
    else if n = name then (n, a) :: rest
    else (n, b) :: insert name a rest

def erase (name : String) (things : Named α) : Named α := things.filter (·.1 ≠ name)

/-- Whether two lists give the same names things that are alike, in whatever order. -/
def sameBy (alike : α → α → Bool) (xs ys : Named α) : Bool :=
  xs.length == ys.length &&
    xs.all fun (name, a) => match ys.get? name with
      | some b => alike a b
      | none => false

end Named

end SchemaHistory
