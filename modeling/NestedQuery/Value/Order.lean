import NestedQuery.Value.Basic

/-!
# The order of values

Two values compare by their underlying values.  Numbers of any two kinds compare with each
other, other values with those of their own kind only; lists and nulls with nothing.

* `Value.compareBare?`   the table for values that are no enumeration members;
* `Value.compare?`       the order of any two values, unknown where there is none;
* `Value.same`           equality of kind and content, in which decimals count by their number.
-/

namespace NestedQuery.Value

/-- the double nearest to an integer -/
def doubleOf (n : Int64) : Binary64 := Binary64.ofInt n.toInt

/-- the order of two values that are no enumeration members -/
def compareBare? : Value → Value → Option Ordering
  | boolean a, boolean b => some (compare a.toNat b.toNat)
  | integer a, integer b => some (compare a.toInt b.toInt)
  | integer a, float b => (doubleOf a).compare? b
  | float a, integer b => a.compare? (doubleOf b)
  | float a, float b => a.compare? b
  | decimal a, decimal b => some (a.compare b)
  | decimal a, integer b => some (a.compare (.ofInt64 b))
  | integer a, decimal b => some ((Decimal.ofInt64 a).compare b)
  | decimal a, float b => a.toBinary64.compare? b
  | float a, decimal b => a.compare? b.toBinary64
  | string a, string b => some (compare a b)
  | date a, date b => some (a.compare b)
  | datetime a, datetime b => some (a.compare b)
  | time a, time b => some (a.compare b)
  | uuid a, uuid b => some (a.compare b)
  | _, _ => none

/-- the order of two values, `none` where it is unknown -/
def compare? (a b : Value) : Option Ordering := compareBare? a.underlying b.underlying

theorem compare?_null_left (b : Value) : null.compare? b = none := by
  unfold compare? compareBare? underlying
  rfl

mutual

/-- one kind and one content -/
def same : Value → Value → Bool
  | null, null => true
  | boolean a, boolean b => a == b
  | integer a, integer b => a == b
  | float a, float b => a.same b
  | string a, string b => a == b
  | date a, date b => a == b
  | datetime a, datetime b => a == b
  | time a, time b => a == b
  | uuid a, uuid b => a == b
  | decimal a, decimal b => a.compare b == .eq
  | member m a, member n b => m == n && same a b
  | list a, list b => sameAll a b
  | _, _ => false

def sameAll : List Value → List Value → Bool
  | [], [] => true
  | a :: as, b :: bs => same a b && sameAll as bs
  | _, _ => false

end

end NestedQuery.Value
