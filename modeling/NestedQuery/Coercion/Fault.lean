import NestedQuery.Value.Basic

/-!
# Faults of a coercion

Why a literal does not stand for a value of a declared type.
-/

namespace NestedQuery.Coercion

inductive Fault
  | calendar (fault : Calendar.Fault)
  | uuid (fault : Uuid.Fault)
  | decimal (fault : Decimal.Fault)
  | float (fault : Binary64.Fault)
  /-- an enumeration has no member with the name or the value -/
  | noMember (value : Value)

def Fault.message : Fault → String
  | calendar fault => fault.message
  | uuid fault => fault.message
  | decimal fault => fault.message
  | float fault => fault.message
  | noMember value => "no member named or valued `" ++ value.display ++ "`"

end NestedQuery.Coercion
