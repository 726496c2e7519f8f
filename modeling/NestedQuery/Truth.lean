/-!
# Three-valued truth

A comparison with a null is neither true nor false.  `Truth` has the two truth values and
`none` for unknown; the connectives are Kleene's.

* `Truth.and`, `Truth.or`, `Truth.not`   the connectives;
* `Truth.not_and`, `Truth.not_or`, `Truth.not_not`   their laws of negation.
-/

namespace NestedQuery

/-- true, false, or `none` for unknown -/
abbrev Truth := Option Bool

namespace Truth

/-- false if one side is, and true if both are -/
def and : Truth → Truth → Truth
  | some false, _ => some false
  | _, some false => some false
  | some true, some true => some true
  | _, _ => none

/-- true if one side is, and false if both are -/
def or : Truth → Truth → Truth
  | some true, _ => some true
  | _, some true => some true
  | some false, some false => some false
  | _, _ => none

def not (a : Truth) : Truth := a.map (!·)

theorem not_not (a : Truth) : not (not a) = a := by
  rcases a with _ | _ | _ <;> rfl

theorem not_and (a b : Truth) : not (and a b) = or (not a) (not b) := by
  rcases a with _ | _ | _ <;> rcases b with _ | _ | _ <;> rfl

theorem not_or (a b : Truth) : not (or a b) = and (not a) (not b) := by
  rcases a with _ | _ | _ <;> rcases b with _ | _ | _ <;> rfl

theorem and_eq_true_iff (a b : Truth) : and a b = some true ↔ a = some true ∧ b = some true := by
  rcases a with _ | _ | _ <;> rcases b with _ | _ | _ <;> decide

theorem or_eq_true_iff (a b : Truth) : or a b = some true ↔ a = some true ∨ b = some true := by
  rcases a with _ | _ | _ <;> rcases b with _ | _ | _ <;> decide

end Truth

end NestedQuery
