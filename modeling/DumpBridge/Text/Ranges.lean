/-!
# Ranges of code points

The classes of characters beyond ASCII are long tables.  They are written as runs: so many
code points outside the class, then so many inside, and so on.
-/

namespace DumpBridge.Text

/-- The closed ranges that runs from a code point on make, in increasing order. -/
def rangesFrom : Nat → List Nat → List (Nat × Nat)
  | start, gap :: size :: runs =>
    (start + gap, start + gap + size - 1) :: rangesFrom (start + gap + size) runs
  | _, _ => []

/-- Whether a code point lies in one of the closed ranges. -/
def inRanges (ranges : List (Nat × Nat)) (n : Nat) : Bool :=
  ranges.any fun range => decide (range.1 ≤ n) && decide (n ≤ range.2)

end DumpBridge.Text
