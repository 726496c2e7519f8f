import NestedQuery.Error
import NestedQuery.Value.Order

/-!
# Coercions

Literals and columns of a document are nulls, booleans, numbers, strings and lists.  Coercions
bring them to the declared types: a table from the key of a type to a function on scalars.  A
list is coerced element by element, and a type that is not in the table takes every value.

* `Coercer`, `Coercions`             one function, and the table of them;
* `Coercions.standard`               dates, times, identifiers, decimals, floats and enumerations;
* `Coercions.coerce`                 a value brought to the type of an attribute.
-/

namespace NestedQuery

namespace Coercion

/-- brings a scalar to a declared type -/
abbrev Coercer := AttributeType → Value → Except Fault Value

/-- a reading of strings; other values stay as they are -/
def ofStrings {ε α : Type} (read : List Char → Except ε α) (fault : ε → Fault) (make : α → Value) :
    Coercer
  | _, .string s =>
    match read s.toList with
    | .ok a => .ok (make a)
    | .error e => .error (fault e)
  | _, value => .ok value

def toDate : Coercer := ofStrings Date.ofText .calendar .date

def toDatetime : Coercer := ofStrings Timestamp.ofText .calendar .datetime

def toTime : Coercer := ofStrings TimeOfDay.ofText .calendar .time

def toUuid : Coercer := ofStrings Uuid.ofText .uuid .uuid

def toDecimal : Coercer
  | _, .integer n => .ok (.decimal (.ofInt64 n))
  | type, value => ofStrings Decimal.ofText .decimal .decimal type value

def toFloat : Coercer
  | _, .integer n => .ok (.float (.ofInt n.toInt))
  | type, value => ofStrings Binary64.ofText .float .float type value

/-! ## enumerations -/

/-- the member with a name -/
def memberNamed? (members : Dict Value) (name : String) : Option Value :=
  (members.get? name).map (.member name)

/-- the first member, in the order of names, with an underlying value -/
def memberValued? (members : Dict Value) (value : Value) : Option Value :=
  (members.entries.find? fun e => e.2.same value).map fun e => .member e.1 e.2

def orNoMember (value : Value) : Option Value → Except Fault Value
  | some m => .ok m
  | none => .error (.noMember value)

/-- a string is a member's name or else its value, and an integer a member's value -/
def toMember : Coercer
  | .enum members, .string s =>
    orNoMember (.string s) (memberNamed? members s <|> memberValued? members (.string s))
  | .enum members, .integer n => orNoMember (.integer n) (memberValued? members (.integer n))
  | _, value => .ok value

end Coercion

/-- coercers by the key of the type that they coerce to -/
structure Coercions where
  byKey : Dict Coercion.Coercer

namespace Coercions

def empty : Coercions := ⟨.empty⟩

def standard : Coercions :=
  ⟨.ofList [("date", Coercion.toDate), ("datetime", Coercion.toDatetime),
    ("time", Coercion.toTime), ("uuid", Coercion.toUuid), ("decimal", Coercion.toDecimal),
    ("float", Coercion.toFloat), ("enum", Coercion.toMember)]⟩

def keys (c : Coercions) : List String := c.byKey.keys

def contains (c : Coercions) (key : String) : Bool := c.byKey.contains key

/-- a value that is no list, brought to the type of an attribute -/
def coerceScalar (c : Coercions) (a : Attribute) (value : Value) : Except Error Value :=
  match c.byKey.get? a.type.key with
  | none => .ok value
  | some coercer =>
    match coercer a.type value with
    | .ok v => .ok v
    | .error fault => .error (.invalidLiteral a value fault)

mutual

/-- a value brought to the type of an attribute -/
def coerce (c : Coercions) (a : Attribute) : Value → Except Error Value
  | .list items => (coerceAll c a items).map .list
  | value => c.coerceScalar a value

def coerceAll (c : Coercions) (a : Attribute) : List Value → Except Error (List Value)
  | [] => .ok []
  | value :: rest =>
    (coerce c a value).bind fun v => (coerceAll c a rest).map (v :: ·)

end

end Coercions

end NestedQuery
