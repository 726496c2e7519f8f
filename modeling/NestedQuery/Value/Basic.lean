import NestedQuery.Number.Binary64.Text
import NestedQuery.Number.Decimal
import NestedQuery.Calendar.Timestamp
import NestedQuery.Uuid

/-!
# Values

What a column holds and what a filter compares it with.

* `Value`                the kinds of values; an enumeration member carries its underlying value;
* `Value.underlying`     a value without the enumeration members around it;
* `Value.kind`           the word for the kind of a value;
* `Value.text`           how a message shows a value;
* `Value.hasText`        whether it can, which it cannot if a decimal has too many places.
-/

namespace NestedQuery

inductive Value
  | null
  | boolean (b : Bool)
  | integer (n : Int64)
  | float (x : Binary64)
  | string (s : String)
  | date (d : Date)
  | datetime (t : Timestamp)
  | time (t : TimeOfDay)
  | uuid (u : Uuid)
  | decimal (d : Decimal)
  | member (name : String) (value : Value)
  | list (items : List Value)

namespace Value

instance : Inhabited Value := ⟨null⟩

def isNull : Value → Bool
  | null => true
  | _ => false

/-- the integer of an integer value -/
def asInteger? : Value → Option Int64
  | integer n => some n
  | _ => none

/-- the string of a string value -/
def asString? : Value → Option String
  | string s => some s
  | _ => none

/-- the items of a list value -/
def asList? : Value → Option (List Value)
  | list items => some items
  | _ => none

def kind : Value → String
  | null => "null"
  | boolean _ => "boolean"
  | integer _ => "integer"
  | float _ => "float"
  | string _ => "string"
  | date _ => "date"
  | datetime _ => "datetime"
  | time _ => "time"
  | uuid _ => "uuid"
  | decimal _ => "decimal"
  | member _ _ => "enum"
  | list _ => "list"

/-- the value inside of any number of enumeration members -/
def underlying : Value → Value
  | member _ value => value.underlying
  | value => value

/-! ## text -/

mutual

/-- strings in single quotes, as they are; a member by its name; lists in brackets -/
def text : Value → List Char
  | null => "null".toList
  | boolean b => (if b then "true" else "false").toList
  | integer n => Text.integer n.toInt
  | float x => x.text .plain
  | string s => '\'' :: s.toList ++ ['\'']
  | date d => d.text
  | datetime t => t.text
  | time t => t.text
  | uuid u => u.text
  | decimal d => d.text
  | member name _ => name.toList
  | list items => '[' :: textAll items ++ [']']

/-- the items with a comma and a space between them -/
def textAll : List Value → List Char
  | [] => []
  | value :: rest => text value ++ textTail rest

def textTail : List Value → List Char
  | [] => []
  | value :: rest => ',' :: ' ' :: text value ++ textTail rest

end

mutual

/-- of a member only the name is shown, and of a list all items are -/
def hasText : Value → Bool
  | decimal d => d.hasText
  | list items => allHaveText items
  | _ => true

def allHaveText : List Value → Bool
  | [] => true
  | value :: rest => hasText value && allHaveText rest

end

def display (value : Value) : String := String.ofList value.text

end Value

end NestedQuery
