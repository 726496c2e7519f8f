import NestedQuery.Calendar.Reading

/-!
# Times of day

A clock reading to the billionth of a second.  Every minute may have a second numbered 60, a
leap second, which comes after second 59.

* `TimeOfDay.ofFields?`              the time of four clock fields, where they are in range;
* `TimeOfDay.ofText`, `TimeOfDay.text`   `hour:minute:second` with 0, 3, 6 or 9 places.
-/

namespace NestedQuery

/-- fields of a clock with leap seconds -/
def OnClock (hour minute second nano : Nat) : Prop :=
  hour < 24 ∧ minute < 60 ∧ second ≤ 60 ∧ nano < 1000000000

instance (hour minute second nano : Nat) : Decidable (OnClock hour minute second nano) :=
  inferInstanceAs (Decidable (_ ∧ _))

structure TimeOfDay where
  hour : Nat
  minute : Nat
  second : Nat
  nano : Nat
  onClock : OnClock hour minute second nano
deriving DecidableEq

namespace TimeOfDay

def ofFields? (hour minute second nano : Nat) : Option TimeOfDay :=
  if h : OnClock hour minute second nano then some ⟨hour, minute, second, nano, h⟩ else none

theorem ofFields?_self (t : TimeOfDay) :
    ofFields? t.hour t.minute t.second t.nano = some t := by
  simp [ofFields?, t.onClock]

def compare (a b : TimeOfDay) : Ordering :=
  (Ord.compare a.hour b.hour).then ((Ord.compare a.minute b.minute).then
    ((Ord.compare a.second b.second).then (Ord.compare a.nano b.nano)))

/-! ## text -/

/-- the fewest of 0, 3, 6 and 9 places that show every billionth -/
def fractionText (nano : Nat) : List Char :=
  if nano = 0 then []
  else if nano % 1000000 = 0 then '.' :: Calendar.padded 3 (nano / 1000000)
  else if nano % 1000 = 0 then '.' :: Calendar.padded 6 (nano / 1000)
  else '.' :: Calendar.padded 9 nano

def text (t : TimeOfDay) : List Char :=
  Calendar.padded 2 t.hour ++ ':' :: Calendar.padded 2 t.minute ++ ':' :: Calendar.padded 2 t.second
    ++ fractionText t.nano

/-- the clock fields down to the second -/
def fields : Calendar.Reader (Nat × Nat × Nat) := fun cs => do
  let (hour, cs) ← Calendar.field 0 23 cs
  let (_, cs) ← Calendar.literal ':' cs
  let (minute, cs) ← Calendar.field 0 59 cs
  let (_, cs) ← Calendar.literal ':' cs
  let (second, cs) ← Calendar.field 0 60 cs
  return ((hour, minute, second), cs)

/-- a point and its digits, where the text goes on with a point -/
def optionalFraction : Calendar.Reader Nat
  | '.' :: rest => Calendar.fraction rest
  | cs => .ok (0, cs)

def ofFields (f : (Nat × Nat × Nat) × Nat) : Except Calendar.Fault TimeOfDay :=
  match ofFields? f.1.1 f.1.2.1 f.1.2.2 f.2 with
  | some t => .ok t
  | none => .error .outOfRange

/-- the fields, then perhaps a fraction, then the end -/
def ofText (cs : List Char) : Except Calendar.Fault TimeOfDay :=
  let read : Except Calendar.Fault (((Nat × Nat × Nat) × Nat) × List Char) := do
    let (f, cs) ← fields cs
    let (nano, cs) ← optionalFraction cs
    return ((f, nano), cs)
  match Calendar.finish read with
  | .error e => .error e
  | .ok f => ofFields f

end TimeOfDay

end NestedQuery
