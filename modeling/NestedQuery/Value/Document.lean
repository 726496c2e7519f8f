import NestedQuery.Json.Basic
import NestedQuery.Value.Basic

/-!
# Values in documents

Numbers, strings, booleans and nulls stand for themselves.  Calendar values and identifiers are
written as strings, decimals as the nearest double, and members of an enumeration by their
underlying value.
-/

namespace NestedQuery.Value

/-- a double in a document, which has neither infinities nor NaN -/
def documentFloat (x : Binary64) : Json := if x.isFinite then .float x else .null

mutual

def document : Value → Json
  | null => .null
  | boolean b => .boolean b
  | integer n => .integer n.toInt
  | float x => documentFloat x
  | string s => .string s
  | date d => .string (String.ofList d.text)
  | datetime t => .string (String.ofList t.text)
  | time t => .string (String.ofList t.text)
  | uuid u => .string (String.ofList u.text)
  | decimal d => documentFloat d.toBinary64
  | member _ value => document value
  | list items => .array (documentAll items)

def documentAll : List Value → List Json
  | [] => []
  | value :: rest => document value :: documentAll rest

end

end NestedQuery.Value
