/-!
# Powers of two and of ten

* `twoPow`, `tenPow`    the powers.
-/

namespace NestedQuery

/-- the `n`-th power of two -/
def twoPow (n : Nat) : Nat := Nat.pow 2 n

/-- the `n`-th power of ten -/
def tenPow (n : Nat) : Nat := Nat.pow 10 n

theorem tenPow_zero : tenPow 0 = 1 := rfl

end NestedQuery
