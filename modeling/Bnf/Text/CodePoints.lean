/-!
# Tables of code points

A property of characters is a table of closed ranges of code points, in ascending order and apart.
`Ranges.contains` looks a code point up. The property modules check their tables with
`Ranges.isAscending` and `Ranges.size`.
-/

namespace Bnf.Text

/-- Closed ranges of code points, given by their first and last member. -/
abbrev Ranges := List (Nat × Nat)

namespace Ranges

/-- Whether a code point lies in one of the ranges. -/
def contains (ranges : Ranges) (codePoint : Nat) : Bool :=
  ranges.any fun (first, last) => first ≤ codePoint && codePoint ≤ last

/-- Whether the ranges are not empty, ascend, and leave a gap between any two neighbours. -/
def isAscending : Ranges → Bool
  | [] => true
  | [(first, last)] => first ≤ last
  | (first, last) :: (next, stop) :: rest =>
    first ≤ last && last + 1 < next && isAscending ((next, stop) :: rest)

/-- The number of code points in ascending ranges. -/
def size (ranges : Ranges) : Nat :=
  ranges.foldl (fun total (first, last) => total + (last + 1 - first)) 0

end Ranges

end Bnf.Text
