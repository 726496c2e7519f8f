import NestedQuery.Number.Powers
import NestedQuery.Text.Blank
import NestedQuery.Text.Digits

/-!
# Reading calendar fields

The readers of dates and times go through a text field by field.  A reader answers the value
with the rest of the text, or the fault that stops it.

* `Calendar.Fault`        premature end, wrong character, value out of range, text left over;
* `Calendar.number`       digits, up to a greatest count;
* `Calendar.field`        a number between bounds, with white space before it;
* `Calendar.literal`      a fixed character.
-/

namespace NestedQuery.Calendar

inductive Fault
  | premature
  | invalid
  | outOfRange
  | trailing
deriving DecidableEq

def Fault.message : Fault → String
  | .premature => "premature end of input"
  | .invalid => "input contains invalid characters"
  | .outOfRange => "input is out of range"
  | .trailing => "trailing input"

abbrev Reader (α : Type) := List Char → Except Fault (α × List Char)

/-- the digits at the start of a text, `most` of them at most where a limit is given -/
def digits (most : Option Nat) (cs : List Char) : List Char :=
  match most with
  | some count => (cs.take count).takeWhile Char.isDigit
  | none => cs.takeWhile Char.isDigit

/-- a number of at least one digit that 63 bits hold -/
def number (most : Option Nat) : Reader Nat := fun cs =>
  let ds := digits most cs
  if ds.isEmpty then .error (if cs.isEmpty then .premature else .invalid)
  else
    let n := Nat.ofDigitChars 10 ds 0
    if n < 0x8000000000000000 then .ok (n, cs.drop ds.length) else .error .outOfRange

/-- a number of two digits at most from `least` to `greatest`, after white space -/
def field (least greatest : Nat) : Reader Nat := fun cs =>
  match number (some 2) (Text.skipBlanks cs) with
  | .error e => .error e
  | .ok (n, rest) => if least ≤ n ∧ n ≤ greatest then .ok (n, rest) else .error .outOfRange

/-- a year of four digits at most, or of any number of digits after a sign -/
def year : Reader Int := fun cs =>
  let signed (negative : Bool) (rest : List Char) : Except Fault (Int × List Char) :=
    match number none rest with
    | .error e => .error e
    | .ok (n, rest') => .ok (if negative then -n else n, rest')
  let read := match Text.skipBlanks cs with
    | '-' :: rest => signed true rest
    | '+' :: rest => signed false rest
    | rest =>
      match number (some 4) rest with
      | .error e => .error e
      | .ok (n, rest') => .ok ((n : Int), rest')
  match read with
  | .error e => .error e
  | .ok (n, rest) =>
    if -0x80000000 ≤ n ∧ n < 0x80000000 then .ok (n, rest) else .error .outOfRange

def literal (c : Char) : Reader Unit
  | [] => .error .premature
  | d :: rest => if d = c then .ok ((), rest) else .error .invalid

/-- digits after a point as billionths; those after the ninth do not count -/
def fraction : Reader Nat := fun cs =>
  match number (some 9) cs with
  | .error e => .error e
  | .ok (n, rest) => .ok (n * tenPow (9 - (cs.length - rest.length)), rest.dropWhile Char.isDigit)

/-- nothing may be left -/
def finish {α : Type} (read : Except Fault (α × List Char)) : Except Fault α :=
  match read with
  | .error e => .error e
  | .ok (a, []) => .ok a
  | .ok (_, _ :: _) => .error .trailing

/-! ## printing -/

/-- a number with zeros in front, `width` digits at least -/
def padded (width n : Nat) : List Char := Text.padded width (Nat.toDigits 10 n)

end NestedQuery.Calendar
