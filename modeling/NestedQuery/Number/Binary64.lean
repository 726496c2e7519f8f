import NestedQuery.Number.Powers

/-!
# Double-precision numbers

A double is its 64 bits: a sign, and a magnitude below `2^63` whose order is the order of the
absolute values.  All arithmetic is exact on natural numbers and rounds once, to the nearest
double, a tie to the even one.

* `Binary64.roundRatio`   the magnitude nearest to a ratio of naturals;
* `Binary64.compare?`     the order of numbers; a NaN has none;
* `Binary64.mul`, `Binary64.div`, `Binary64.ofInt`   rounded arithmetic;
* `Binary64.power`        powers by repeated squaring, each product rounded.
-/

namespace NestedQuery

/-- a double-precision number, by its bits -/
structure Binary64 where
  bits : UInt64
deriving DecidableEq

namespace Binary64

/-- the least magnitude of the numbers with a full significand, `2^52` -/
def normal : Nat := 0x10000000000000

/-- the magnitude of infinity; those above it are not numbers -/
def infinite : Nat := 0x7FF * normal

/-- the bit of the sign, `2^63` -/
def signBit : Nat := 0x8000000000000000

/-- the number with a sign and a magnitude -/
def ofMagnitude (negative : Bool) (magnitude : Nat) : Binary64 :=
  ⟨UInt64.ofNat (magnitude + if negative then signBit else 0)⟩

def isNegative (x : Binary64) : Bool := signBit ≤ x.bits.toNat

/-- the bits below the sign -/
def magnitude (x : Binary64) : Nat := x.bits.toNat % signBit

def zero : Binary64 := ofMagnitude false 0

def infinity (negative : Bool) : Binary64 := ofMagnitude negative infinite

/-- the one NaN that operations answer -/
def nan : Binary64 := ofMagnitude false (infinite + normal / 2)

def isNaN (x : Binary64) : Bool := infinite < x.magnitude

def isInfinite (x : Binary64) : Bool := x.magnitude == infinite

def isFinite (x : Binary64) : Bool := x.magnitude < infinite

def isZero (x : Binary64) : Bool := x.magnitude == 0

def neg (x : Binary64) : Binary64 := ofMagnitude (!x.isNegative) x.magnitude

/-- the place of a number on the real line; the two zeros share one -/
def rank (x : Binary64) : Int := if x.isNegative then -(x.magnitude : Int) else x.magnitude

/-- the order of two numbers, unless one is a NaN -/
def compare? (x y : Binary64) : Option Ordering :=
  if x.isNaN || y.isNaN then none else some (compare x.rank y.rank)

/-- numeric equality: a NaN differs from itself and the two zeros are equal -/
def same (x y : Binary64) : Bool := x.compare? y == some .eq

/-! ## values of magnitudes -/

/-- the whole number `m` of a finite magnitude `m * 2 ^ q` -/
def significand (magnitude : Nat) : Nat :=
  if magnitude < normal then magnitude else magnitude % normal + normal

/-- the exponent `q` of a finite magnitude `m * 2 ^ q`, plus 1074 -/
def scale (magnitude : Nat) : Nat := magnitude / normal - 1

def numerator (magnitude : Nat) : Nat :=
  significand magnitude * twoPow (scale magnitude - 1074)

def denominator (magnitude : Nat) : Nat := twoPow (1074 - scale magnitude)

/-! ## rounding -/

/-- the quotient rounded to the nearest whole number, a tie to the even one -/
def roundDiv (a b : Nat) : Nat :=
  let q := a / b
  let r := a % b
  if b < 2 * r ∨ (2 * r = b ∧ q % 2 = 1) then q + 1 else q

/-- the greatest `k` with `2 ^ k ≤ num * 2 ^ bias / den`, or zero when there is none -/
def log2Ratio (num den bias : Nat) : Nat :=
  let k := num.log2 + bias - den.log2
  if num * twoPow bias < den * twoPow k then k - 1 else k

/-- the magnitude nearest to `num / den`; one that is too large is infinite -/
def roundRatio (num den : Nat) : Nat :=
  if num = 0 then 0
  else
    let s := log2Ratio num den 1126 - 104
    let q := roundDiv (num * twoPow (1074 - s)) (den * twoPow (s - 1074))
    min (s * normal + q) infinite

def ofRatio (negative : Bool) (num den : Nat) : Binary64 :=
  ofMagnitude negative (roundRatio num den)

def ofInt (n : Int) : Binary64 := ofRatio (n < 0) n.natAbs 1

/-! ## arithmetic -/

def mul (x y : Binary64) : Binary64 :=
  let negative := x.isNegative != y.isNegative
  if x.isNaN || y.isNaN then nan
  else if x.isInfinite || y.isInfinite then
    if x.isZero || y.isZero then nan else infinity negative
  else
    ofRatio negative (numerator x.magnitude * numerator y.magnitude)
      (denominator x.magnitude * denominator y.magnitude)

def div (x y : Binary64) : Binary64 :=
  let negative := x.isNegative != y.isNegative
  if x.isNaN || y.isNaN then nan
  else if x.isInfinite then
    if y.isInfinite then nan else infinity negative
  else if y.isInfinite then ofMagnitude negative 0
  else if y.isZero then
    if x.isZero then nan else infinity negative
  else
    ofRatio negative (numerator x.magnitude * denominator y.magnitude)
      (denominator x.magnitude * numerator y.magnitude)

/-- the product of `acc` and the `n`-th power of `base`, by repeated squaring from the lowest
binary digit of `n` -/
def powerFrom (acc base : Binary64) (n : Nat) : Binary64 :=
  let acc' := if n % 2 = 1 then acc.mul base else acc
  if n / 2 = 0 then acc' else powerFrom acc' (base.mul base) (n / 2)
termination_by n
decreasing_by omega

def power (base : Binary64) (n : Nat) : Binary64 := powerFrom (ofInt 1) base n

end Binary64

end NestedQuery
