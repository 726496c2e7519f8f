import NestedQuery.Comparison
import NestedQuery.Truth
import NestedQuery.Value.Order

/-!
# Comparisons of values

* `Comparison.suits`      the orders that a comparison asks for;
* `Value.memberOf`        membership in a list, as a disjunction of equalities;
* `Comparison.truth`      the truth of a comparison; values without an order make it unknown.
-/

namespace NestedQuery

/-- whether the comparison holds of values in an order; membership counts as equality -/
def Comparison.suits : Comparison → Ordering → Bool
  | eq, o => o == .eq
  | ne, o => o != .eq
  | gt, o => o == .gt
  | lt, o => o == .lt
  | ge, o => o != .lt
  | le, o => o != .gt
  | isIn, o => o == .eq
  | notIn, o => o != .eq

namespace Value

/-- equality of two values, unknown where they have no order -/
def equals (a b : Value) : Truth := (a.compare? b).map (· == .eq)

/-- some item equals the value -/
def memberOf (a : Value) : List Value → Truth
  | [] => some false
  | item :: rest => Truth.or (a.equals item) (a.memberOf rest)

theorem memberOf_cons (a item : Value) (rest : List Value) :
    a.memberOf (item :: rest) = Truth.or (a.equals item) (a.memberOf rest) := rfl

/-- the items of a list, and of another value the value itself -/
def items (b : Value) : List Value := b.asList?.getD [b]

/-- membership in the items of a value; a null is a member of nothing that is known -/
def memberOfItems (a b : Value) : Truth := if a.isNull then none else a.memberOf b.items

end Value

def Comparison.truth (op : Comparison) (a b : Value) : Truth :=
  match op with
  | isIn => a.memberOfItems b
  | notIn => Truth.not (a.memberOfItems b)
  | op => (a.compare? b).map op.suits

end NestedQuery
