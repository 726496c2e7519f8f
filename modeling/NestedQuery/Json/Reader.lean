import NestedQuery.Json.Basic
import NestedQuery.Json.Raw

/-!
# Reading JSON

* `StringPart.decode?`      the string of its parts; surrogate codes have to come in pairs;
* `NumberText.decode?`      whole numbers of 64 bits stay whole, all others become doubles;
* `Json.ofRaw?`, `Json.ofText?`   a document, with fewer than 128 arrays and objects inside of
                            each other; of two fields with one key the later counts.
-/

namespace NestedQuery.Json

/-! ## strings -/

/-- the character of a surrogate pair -/
def surrogatePair (high low : Nat) : Char :=
  Char.ofNat (0x10000 + (high - 0xD800) * 0x400 + (low - 0xDC00))

/-- the characters that the parts stand for -/
def decodeParts? : List StringPart → Option (List Char)
  | [] => some []
  | .char c :: rest => (decodeParts? rest).map (c :: ·)
  | .code n :: rest =>
    if 0xD800 ≤ n ∧ n < 0xDC00 then
      match rest with
      | .code m :: rest' =>
        if 0xDC00 ≤ m ∧ m < 0xE000 then (decodeParts? rest').map (surrogatePair n m :: ·)
        else none
      | _ => none
    else if 0xDC00 ≤ n ∧ n < 0xE000 then none
    else (decodeParts? rest).map (Char.ofNat n :: ·)

def decodeString? (parts : List StringPart) : Option String :=
  (decodeParts? parts).map String.ofList

/-! ## numbers -/

/-- digits put behind a whole number as long as it stays below `2 ^ 64`: the number, and how many
digits it took -/
def absorb (significand taken : Nat) : List Char → Nat × Nat
  | [] => (significand, taken)
  | c :: cs =>
    let next := significand * 10 + (c.toNat - '0'.toNat)
    if next < 0x10000000000000000 then absorb next (taken + 1) cs else (significand, taken)

/-- the double nearest to `10 ^ n` -/
def powerOfTen (n : Nat) : Binary64 := .ofRatio false (tenPow n) 1

/-- a double times a power of ten, in steps that powers of doubles can express; a number that is
too large is none -/
def scaled? (x : Binary64) (exponent : Int) : Option Binary64 :=
  if exponent.natAbs ≤ 308 then
    if 0 ≤ exponent then
      let y := x.mul (powerOfTen exponent.natAbs)
      if y.isInfinite then none else some y
    else some (x.div (powerOfTen exponent.natAbs))
  else if x.isZero then some x
  else if 0 ≤ exponent then none
  else scaled? (x.div (powerOfTen 308)) (exponent + 308)
termination_by exponent.natAbs
decreasing_by omega

namespace NumberText

def withSign (n : NumberText) (x : Binary64) : Json := .float (if n.negative then x.neg else x)

/-- the exponent with its sign, unless it takes more than 31 bits -/
def exponentValue? : Option (Bool × List Char) → Option Int
  | none => some 0
  | some (negative, ds) =>
    let e := Nat.ofDigitChars 10 ds 0
    if e < 0x80000000 then some (if negative then -e else e) else none

/-- a number with a fraction, an exponent or too many digits: the first digits as a whole number,
scaled by the power of ten that the others and the exponent ask for -/
def decodeFloat? (n : NumberText) : Option Json :=
  let (sig, taken) := absorb 0 0 n.whole
  let (sig, places) := absorb sig 0 n.fraction
  let shift : Int := (n.whole.length - taken : Nat) - (places : Nat)
  match exponentValue? n.exponent with
  | some e => (scaled? (.ofInt sig) (shift + e)).map n.withSign
  | none =>
    let negative := (n.exponent.map (·.1)).getD false
    if sig ≠ 0 ∧ !negative then none else some (n.withSign .zero)

def decode? (n : NumberText) : Option Json :=
  if n.fraction.isEmpty && n.exponent.isNone then
    let m := Nat.ofDigitChars 10 n.whole 0
    if n.negative then
      if m = 0 then some (.float Binary64.zero.neg)
      else if m ≤ 0x8000000000000000 then some (.integer (-m))
      else n.decodeFloat?
    else if m < 0x10000000000000000 then some (.integer m)
    else n.decodeFloat?
  else n.decodeFloat?

end NumberText

/-! ## documents -/

mutual

/-- the meaning of a structure with fewer than `depth` levels -/
def ofRaw? (depth : Nat) : Raw → Option Json
  | .null => some .null
  | .boolean b => some (.boolean b)
  | .number n => n.decode?
  | .string parts => (decodeString? parts).map .string
  | .array raws => if depth ≤ 1 then none else (ofRawItems? (depth - 1) raws).map .array
  | .object raws =>
    if depth ≤ 1 then none
    else (ofRawFields? (depth - 1) raws).map fun fields => .ofDict (.ofList fields)

def ofRawItems? (depth : Nat) : List Raw → Option (List Json)
  | [] => some []
  | raw :: rest =>
    (ofRaw? depth raw).bind fun item => (ofRawItems? depth rest).map (item :: ·)

def ofRawFields? (depth : Nat) : List (List StringPart × Raw) → Option (List (String × Json))
  | [] => some []
  | (name, raw) :: rest =>
    (decodeString? name).bind fun key =>
      (ofRaw? depth raw).bind fun value =>
        (ofRawFields? depth rest).map ((key, value) :: ·)

end

/-- the greatest number of levels, less one, counts as too deep -/
def depthLimit : Nat := 128

def ofText? (cs : List Char) : Option Json := (Raw.ofText cs).bind (ofRaw? depthLimit)

end NestedQuery.Json
