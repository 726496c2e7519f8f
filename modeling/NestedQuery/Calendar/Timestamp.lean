import NestedQuery.Calendar.Date
import NestedQuery.Calendar.TimeOfDay

/-!
# Timestamps

A point of time is a date and a time of day in UTC.  It is read in the form of RFC 3339, with
any offset from UTC, or else as a date and a time with white space between them.

* `Timestamp.ofLocal?`        the point of time of a local reading and its offset in minutes;
* `Timestamp.ofRfc3339?`, `Timestamp.ofText`   reading;
* `Timestamp.text`            RFC 3339 with the offset `+00:00`.
-/

namespace NestedQuery

structure Timestamp where
  date : Date
  time : TimeOfDay
deriving DecidableEq

namespace Timestamp

def compare (a b : Timestamp) : Ordering :=
  (a.date.compare b.date).then (a.time.compare b.time)

def text (t : Timestamp) : List Char :=
  t.date.text ++ 'T' :: t.time.text ++ "+00:00".toList

/-- whole minutes from the start of a date, less than a day off, with the seconds of a time -/
def atMinute? (date : Date) (minutes : Int) (time : TimeOfDay) : Option Timestamp := do
  let (date, minutes) ←
    if minutes < 0 then date.previous?.map fun d => (d, minutes + 1440)
    else if 1440 ≤ minutes then date.next?.map fun d => (d, minutes - 1440)
    else some (date, minutes)
  let time ← TimeOfDay.ofFields? (minutes.toNat / 60) (minutes.toNat % 60) time.second time.nano
  return ⟨date, time⟩

/-- the point of time when clocks `offset` minutes ahead of UTC show a date and a time -/
def ofLocal? (date : Date) (time : TimeOfDay) (offset : Int) : Option Timestamp :=
  atMinute? date ((time.hour * 60 + time.minute : Nat) - offset) time

/-! ## RFC 3339 -/

/-- exactly `count` digits -/
def exactly? (count : Nat) (cs : List Char) : Option (Nat × List Char) :=
  let ds := cs.take count
  if ds.length = count ∧ ds.all Char.isDigit then
    some (Nat.ofDigitChars 10 ds 0, cs.drop count)
  else none

/-- one character out of a list of them -/
def oneOf? (choices : List Char) : List Char → Option (List Char)
  | [] => none
  | c :: cs => if c ∈ choices then some cs else none

/-- a hyphen, or the minus sign proper -/
def isMinus (c : Char) : Bool := c == '-' || c == '\u2212'

/-- `Z`, or a signed offset of hours and minutes up to 23:59, in minutes -/
def offset? : List Char → Option (Int × List Char)
  | [] => none
  | c :: cs =>
    if c = 'Z' ∨ c = 'z' then some (0, cs)
    else if c == '+' || isMinus c then do
      let (hours, cs) ← exactly? 2 cs
      let cs ← oneOf? [':'] cs
      let (minutes, cs) ← exactly? 2 cs
      if hours ≤ 23 ∧ minutes ≤ 59 then
        let total : Int := (hours * 60 + minutes : Nat)
        some (if isMinus c then -total else total, cs)
      else none
    else none

def ofRfc3339? (cs : List Char) : Option Timestamp := do
  let (year, cs) ← exactly? 4 cs
  let cs ← oneOf? ['-'] cs
  let (month, cs) ← exactly? 2 cs
  let cs ← oneOf? ['-'] cs
  let (day, cs) ← exactly? 2 cs
  let cs ← oneOf? ['T', 't', ' '] cs
  let (hour, cs) ← exactly? 2 cs
  let cs ← oneOf? [':'] cs
  let (minute, cs) ← exactly? 2 cs
  let cs ← oneOf? [':'] cs
  let (second, cs) ← exactly? 2 cs
  let (nano, cs) ← (TimeOfDay.optionalFraction cs).toOption
  let (offset, cs) ← offset? cs
  if cs.isEmpty then
    let date ← Date.ofYmd? year month day
    let time ← TimeOfDay.ofFields? hour minute second nano
    ofLocal? date time offset
  else none

/-! ## a date and a time -/

/-- the fields of a date and of a time, with white space or nothing between them -/
def fields : Calendar.Reader ((Int × Nat × Nat) × (Nat × Nat × Nat)) := fun cs => do
  let (date, cs) ← Date.fields cs
  let (time, cs) ← TimeOfDay.fields (Text.skipBlanks cs)
  return ((date, time), cs)

/-- a date and a time in UTC -/
def ofPlain (cs : List Char) : Except Calendar.Fault Timestamp := do
  let (d, t) ← Calendar.finish (fields cs)
  let date ← Date.ofFields d
  let time ← TimeOfDay.ofFields (t, 0)
  return ⟨date, time⟩

/-- RFC 3339 first; the fault is that of the plain form -/
def ofText (cs : List Char) : Except Calendar.Fault Timestamp :=
  match ofRfc3339? cs with
  | some t => .ok t
  | none => ofPlain cs

end Timestamp

end NestedQuery
