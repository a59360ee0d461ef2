/-!
# Character classes by ranges

A character class that is a table of a standard is kept as a list of closed ranges of code points.
This file holds the one function that reads such a table.

## Main Definitions

* `inRanges` — membership of a character in a list of closed ranges
-/

namespace Quasiquote.Text

/-- Whether the code point of `c` lies in one of the closed ranges. -/
def inRanges (ranges : List (Nat × Nat)) (c : Char) : Bool :=
  ranges.any fun range => range.1 ≤ c.toNat && c.toNat ≤ range.2

@[simp] theorem inRanges_nil (c : Char) : inRanges [] c = false := rfl

@[simp] theorem inRanges_cons (range : Nat × Nat) (ranges : List (Nat × Nat)) (c : Char) :
    inRanges (range :: ranges) c =
      ((range.1 ≤ c.toNat && c.toNat ≤ range.2) || inRanges ranges c) := rfl

end Quasiquote.Text
