import NestedQuery.Comparison
import NestedQuery.Value.Basic

/-!
# Terms of a filter

A term is a selector, an operator and a literal, such as `any > 3`.

* `Selector`     the value itself, some related row or every related row;
* `Operator`     the comparisons that can be written;
* `Literal`      strings, integers, booleans and lists of them, as written;
* `Term.text`    how a message shows a term.
-/

namespace NestedQuery

/-- what a term speaks of -/
inductive Selector
  /-- the value of the row itself -/
  | star
  /-- some related row -/
  | any
  /-- every related row -/
  | all
deriving DecidableEq

namespace Selector

def isQuantified : Selector → Bool
  | star => false
  | any => true
  | all => true

def text : Selector → String
  | star => "*"
  | any => "any"
  | all => "all"

end Selector

inductive Operator
  | eq
  | ne
  | gt
  | lt
  | ge
  | le
  | isIn
deriving DecidableEq

namespace Operator

def comparison : Operator → Comparison
  | eq => .eq
  | ne => .ne
  | gt => .gt
  | lt => .lt
  | ge => .ge
  | le => .le
  | isIn => .isIn

/-- whether the operator compares with a list -/
def takesList : Operator → Bool
  | isIn => true
  | _ => false

def text (op : Operator) : String := op.comparison.text

end Operator

/-- how two parts of a filter are joined -/
inductive Connective
  | and
  | or
deriving DecidableEq

def Connective.text : Connective → String
  | and => "and"
  | or => "or"

inductive LiteralKind
  | string
  | integer
  | boolean
deriving DecidableEq

def LiteralKind.text : LiteralKind → String
  | string => "string"
  | integer => "integer"
  | boolean => "boolean"

/-- a literal as it is written -/
inductive Literal
  | string (s : String)
  | integer (n : Int64)
  | boolean (b : Bool)
  | list (items : List Literal)

namespace Literal

instance : Inhabited Literal := ⟨list []⟩

/-- a list is of the kind of its first item, and an empty one of none -/
def kind? : Literal → Option LiteralKind
  | string _ => some .string
  | integer _ => some .integer
  | boolean _ => some .boolean
  | list [] => none
  | list (item :: _) => item.kind?

def isList : Literal → Bool
  | list _ => true
  | _ => false

mutual

/-- the literal as a value, before it is brought to the type of a column -/
def value : Literal → Value
  | string s => .string s
  | integer n => .integer n
  | boolean b => .boolean b
  | list items => .list (values items)

def values : List Literal → List Value
  | [] => []
  | item :: rest => value item :: values rest

end

theorem values_eq_map (items : List Literal) : values items = items.map value := by
  induction items with
  | nil => rfl
  | cons item rest ih => rw [values, ih, List.map_cons]

end Literal

structure Term where
  selector : Selector
  operator : Operator
  literal : Literal

def Term.text (t : Term) : String :=
  t.selector.text ++ " " ++ t.operator.text ++ " " ++ t.literal.value.display

end NestedQuery
