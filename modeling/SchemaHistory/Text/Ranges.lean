/-!
# Sets of characters given by ranges

The character classes of this library are properties of the Unicode character database (version
17.0). Each is a table of inclusive ranges of code points, and membership is a scan of the table.
-/

namespace SchemaHistory.Text

/-- Inclusive ranges of code points, in ascending order. -/
abbrev CodeRanges := List (Nat × Nat)

def CodeRanges.contains (ranges : CodeRanges) (c : Char) : Bool :=
  ranges.any fun range => range.1 ≤ c.toNat && c.toNat ≤ range.2

end SchemaHistory.Text
