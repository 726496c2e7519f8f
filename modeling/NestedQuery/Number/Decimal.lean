import NestedQuery.Number.Binary64
import NestedQuery.Text.Blank
import NestedQuery.Text.Digits

/-!
# Fixed-point decimals

A decimal is `units * 10 ^ -scale` with 128-bit units; the scale keeps the digits that were
written.

* `Decimal.ofText`    an optional sign and digits with at most one point;
* `Decimal.text`      all digits of the scale, and one before the point at least;
* `Decimal.hasText`   whether there are so few digits that a decimal can be written like that;
* `Decimal.compare`   exact where both sides fit 128 bits on the larger scale, and the order of
                      the nearest doubles elsewhere.
-/

namespace NestedQuery

/-- the whole numbers of 128 bits -/
def Fits128 (n : Int) : Prop :=
  -0x80000000000000000000000000000000 ≤ n ∧ n < 0x80000000000000000000000000000000

instance (n : Int) : Decidable (Fits128 n) := inferInstanceAs (Decidable (_ ∧ _))

/-- `units * 10 ^ -scale` -/
structure Decimal where
  units : Int
  scale : UInt32
  fits : Fits128 units
deriving DecidableEq

namespace Decimal

theorem fits_int64 (n : Int64) : Fits128 n.toInt := by
  have h1 := n.le_toInt
  have h2 := n.toInt_lt
  constructor <;> omega

/-- a whole number -/
def ofInt64 (n : Int64) : Decimal := ⟨n.toInt, 0, fits_int64 n⟩

/-! ## order -/

/-- the number when 128 bits hold it -/
def checked (n : Int) : Option Int := if Fits128 n then some n else none

/-- the units of a decimal on a larger scale; both the power of ten and the product have to fit
128 bits -/
def rescaled (d : Decimal) (scale : UInt32) : Option Int :=
  let places := scale.toNat - d.scale.toNat
  if places ≤ 38 then checked (d.units * tenPow places) else none

/-- the power of ten of a scale, rounded to a double.  The exponent is signed and of 32 bits, so that
the largest scales wrap around to negative exponents -/
def scalePower (scale : UInt32) : Binary64 :=
  if scale.toNat < 0x80000000 then (Binary64.ofInt 10).power scale.toNat
  else (Binary64.ofInt 1).div ((Binary64.ofInt 10).power (0x100000000 - scale.toNat))

/-- the units rounded to a double, over the power of ten rounded to a double -/
def toBinary64 (d : Decimal) : Binary64 := (Binary64.ofInt d.units).div (scalePower d.scale)

def compare (a b : Decimal) : Ordering :=
  let scale := max a.scale b.scale
  match a.rescaled scale, b.rescaled scale with
  | some x, some y => Ord.compare x y
  | _, _ => (a.toBinary64.compare? b.toBinary64).getD .eq

/-! ## text -/

/-- why a text is no decimal -/
inductive Fault
  | malformed (text : String)
  | outOfRange (text : String)
deriving DecidableEq

def Fault.message : Fault → String
  | .malformed text => s!"`{text}` is not a decimal"
  | .outOfRange text => s!"`{text}` is out of range"

/-- the parts before and after the first point -/
def splitPoint (cs : List Char) : List Char × List Char :=
  (cs.takeWhile (· != '.'), (cs.dropWhile (· != '.')).tail)

/-- the decimal with a sign and the digits before and after the point -/
def ofParts? (negative : Bool) (whole fraction : List Char) : Option Decimal :=
  let n := Nat.ofDigitChars 10 (whole ++ fraction) 0
  if h : n < 0x80000000000000000000000000000000 then
    some ⟨if negative then -n else n, fraction.length.toUInt32, by
      unfold Fits128
      split <;> omega⟩
  else none

/-- at least one digit on one of the sides, and nothing but digits -/
def areDigits (whole fraction : List Char) : Bool :=
  !(whole ++ fraction).isEmpty && (whole ++ fraction).all Char.isDigit

/-- read a decimal; white space around it does not count -/
def ofText (cs : List Char) : Except Fault Decimal :=
  let cs := Text.trimmed cs
  let signed := Text.sign cs
  let parts := splitPoint signed.2
  if areDigits parts.1 parts.2 then
    match ofParts? signed.1 parts.1 parts.2 with
    | some d => .ok d
    | none => .error (.outOfRange (String.ofList cs))
  else .error (.malformed (String.ofList cs))

/-- the digits are padded to one more than the scale, and a width of padding has 16 bits -/
def hasText (d : Decimal) : Bool := d.scale.toNat + 1 < 0x10000

/-- the text of a decimal that has one -/
def text (d : Decimal) : List Char :=
  let sign := if d.units < 0 then ['-'] else []
  let places := d.scale.toNat
  if places = 0 then sign ++ Nat.toDigits 10 d.units.natAbs
  else
    let digits := Text.padded (places + 1) (Nat.toDigits 10 d.units.natAbs)
    let whole := digits.length - places
    sign ++ digits.take whole ++ '.' :: digits.drop whole

end Decimal

end NestedQuery
