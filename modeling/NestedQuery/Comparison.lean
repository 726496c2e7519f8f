/-!
# Comparisons

The comparisons between a column and a value.

* `Comparison`              equality, order and membership, and the negation of membership;
* `Comparison.negate`       the comparison that holds where the given one fails;
* `Comparison.negate_negate`   negation twice is the comparison itself.
-/

namespace NestedQuery

inductive Comparison
  | eq
  | ne
  | gt
  | lt
  | ge
  | le
  | isIn
  | notIn
deriving DecidableEq

namespace Comparison

def negate : Comparison → Comparison
  | eq => ne
  | ne => eq
  | gt => le
  | le => gt
  | lt => ge
  | ge => lt
  | isIn => notIn
  | notIn => isIn

theorem negate_negate (c : Comparison) : c.negate.negate = c := by
  cases c <;> rfl

def text : Comparison → String
  | eq => "=="
  | ne => "!="
  | gt => ">"
  | lt => "<"
  | ge => ">="
  | le => "<="
  | isIn => "in"
  | notIn => "not in"

end Comparison

end NestedQuery
