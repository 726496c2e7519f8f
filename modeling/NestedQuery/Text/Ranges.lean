/-!
# Sets of characters given by ranges

Character classes of Unicode are tables of code point ranges; `inRanges` is membership.
-/

namespace NestedQuery.Text

/-- some range, ends included, holds the code point -/
def inRanges (ranges : List (Nat × Nat)) (code : Nat) : Bool :=
  ranges.any fun r => r.1 ≤ code && code ≤ r.2

theorem inRanges_nil (code : Nat) : inRanges [] code = false := rfl

theorem inRanges_cons (r : Nat × Nat) (ranges : List (Nat × Nat)) (code : Nat) :
    inRanges (r :: ranges) code = ((r.1 ≤ code && code ≤ r.2) || inRanges ranges code) := rfl

end NestedQuery.Text
