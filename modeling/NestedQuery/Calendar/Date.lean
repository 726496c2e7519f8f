import NestedQuery.Calendar.Reading

/-!
# Dates

A date of the Gregorian calendar, carried back before its introduction, from the year -262143 to
the year 262142.

* `Date.ofYmd?`                 the date of a year, a month and a day, where there is one;
* `Date.next?`, `Date.previous?`   the days around a date;
* `Date.ofText`, `Date.text`    `year-month-day`, with a sign for years outside four digits.
-/

namespace NestedQuery

def isLeapYear (year : Int) : Bool :=
  year % 4 == 0 && (year % 100 != 0 || year % 400 == 0)

def daysInMonth (year : Int) (month : Nat) : Nat :=
  if month = 2 then (if isLeapYear year then 29 else 28)
  else if month = 4 ∨ month = 6 ∨ month = 9 ∨ month = 11 then 30
  else 31

/-- a year, a month and a day of the calendar -/
def InCalendar (year : Int) (month day : Nat) : Prop :=
  (-262143 ≤ year ∧ year ≤ 262142) ∧ (1 ≤ month ∧ month ≤ 12) ∧
    (1 ≤ day ∧ day ≤ daysInMonth year month)

instance (year : Int) (month day : Nat) : Decidable (InCalendar year month day) :=
  inferInstanceAs (Decidable (_ ∧ _))

structure Date where
  year : Int
  month : Nat
  day : Nat
  inCalendar : InCalendar year month day
deriving DecidableEq

namespace Date

def ofYmd? (year : Int) (month day : Nat) : Option Date :=
  if h : InCalendar year month day then some ⟨year, month, day, h⟩ else none

theorem ofYmd?_self (d : Date) : ofYmd? d.year d.month d.day = some d := by
  simp [ofYmd?, d.inCalendar]

def compare (a b : Date) : Ordering :=
  (Ord.compare a.year b.year).then ((Ord.compare a.month b.month).then (Ord.compare a.day b.day))

/-- the day after -/
def next? (d : Date) : Option Date :=
  if d.day < daysInMonth d.year d.month then ofYmd? d.year d.month (d.day + 1)
  else if d.month < 12 then ofYmd? d.year (d.month + 1) 1
  else ofYmd? (d.year + 1) 1 1

/-- the day before -/
def previous? (d : Date) : Option Date :=
  if 1 < d.day then ofYmd? d.year d.month (d.day - 1)
  else if 1 < d.month then ofYmd? d.year (d.month - 1) (daysInMonth d.year (d.month - 1))
  else ofYmd? (d.year - 1) 12 31

/-! ## text -/

/-- four digits, after a sign outside of 0 to 9999 -/
def yearText (year : Int) : List Char :=
  let ds := Calendar.padded 4 year.natAbs
  if 0 ≤ year ∧ year ≤ 9999 then ds else (if year < 0 then '-' else '+') :: ds

def text (d : Date) : List Char :=
  yearText d.year ++ '-' :: Calendar.padded 2 d.month ++ '-' :: Calendar.padded 2 d.day

/-- the three fields, before it is known whether the calendar has such a day -/
def fields : Calendar.Reader (Int × Nat × Nat) := fun cs => do
  let (year, cs) ← Calendar.year cs
  let (_, cs) ← Calendar.literal '-' cs
  let (month, cs) ← Calendar.field 1 12 cs
  let (_, cs) ← Calendar.literal '-' cs
  let (day, cs) ← Calendar.field 1 31 cs
  return ((year, month, day), cs)

/-- the date of the three fields -/
def ofFields (f : Int × Nat × Nat) : Except Calendar.Fault Date :=
  match ofYmd? f.1 f.2.1 f.2.2 with
  | some d => .ok d
  | none => .error .outOfRange

/-- what is left over counts before an impossible day -/
def ofText (cs : List Char) : Except Calendar.Fault Date :=
  match Calendar.finish (fields cs) with
  | .error e => .error e
  | .ok f => ofFields f

end Date

end NestedQuery
