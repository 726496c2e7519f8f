import NestedQuery.Number.Binary64.Shortest
import NestedQuery.Text.Digits

/-!
# Doubles as text

Printing takes the shortest decimal that reads back and lays it out by a style; reading takes
an optional sign, digits with at most one point, and an optional exponent, or a word for
infinity or NaN, and rounds the exact decimal once.

* `FloatStyle`, `Binary64.layout`     which exponents are written out, whether a whole number
                                      keeps a fraction, and where a tie goes;
* `FloatStyle.plain`, `FloatStyle.document`   the style of messages and that of documents;
* `Binary64.ofText`                   reading;
* `Binary64.ofScientific`             the double nearest to a decimal.
-/

namespace NestedQuery

/-- how the digits of a double are laid out -/
structure FloatStyle where
  /-- the least and the greatest exponent of the first digit that is written positionally -/
  positional : Option (Int × Int)
  /-- a whole number ends in `.0` -/
  keepsFraction : Bool
  /-- the last digit where two decimals are equally near -/
  tie : Tie
deriving DecidableEq

/-- every number is written positionally, a whole number has no point, and ties go up -/
def FloatStyle.plain : FloatStyle := ⟨none, false, .up⟩

/-- exponents from `-5` to `15` are written positionally, with a fraction always, and ties go to
the even digit -/
def FloatStyle.document : FloatStyle := ⟨some (-5, 15), true, .toEven⟩

namespace Binary64

/-! ## printing -/

/-- digits with the point after the first `place` of them -/
def positionalText (keepsFraction : Bool) (digits : List Char) (place : Int) : List Char :=
  if place ≤ 0 then '0' :: '.' :: (List.replicate (-place).toNat '0' ++ digits)
  else if digits.length ≤ place.toNat then
    digits ++ List.replicate (place.toNat - digits.length) '0'
      ++ (if keepsFraction then ['.', '0'] else [])
  else digits.take place.toNat ++ '.' :: digits.drop place.toNat

/-- one digit before the point, then the signed exponent -/
def scientificText (digits : List Char) (exponent : Int) : List Char :=
  let mantissa := match digits with
    | [] => []
    | [d] => [d]
    | d :: rest => d :: '.' :: rest
  mantissa ++ 'e' :: (if exponent < 0 then '-' else '+') :: Nat.toDigits 10 exponent.natAbs

/-- a decimal laid out by a style -/
def layout (style : FloatStyle) (s : Scientific) : List Char :=
  let digits := Nat.toDigits 10 s.digits
  let place := digits.length + s.exponent
  match style.positional with
  | none => positionalText style.keepsFraction digits place
  | some (least, greatest) =>
    if least ≤ place - 1 ∧ place - 1 ≤ greatest then
      positionalText style.keepsFraction digits place
    else scientificText digits (place - 1)

/-- the text of a double that is not zero is its shortest decimal in the style -/
def text (style : FloatStyle) (x : Binary64) : List Char :=
  if x.isNaN then "NaN".toList
  else
    let sign := if x.isNegative then ['-'] else []
    if x.isInfinite then sign ++ "inf".toList
    else if x.isZero then sign ++ '0' :: (if style.keepsFraction then ['.', '0'] else [])
    else sign ++ layout style (shortest style.tie x.magnitude)

/-! ## reading -/

/-- the double nearest to `digits * 10 ^ exponent`; far outside the range of doubles only the
size of the number counts, not its digits -/
def ofScientific (negative : Bool) (digits : Nat) (exponent : Int) : Binary64 :=
  let place := (Nat.toDigits 10 digits).length + exponent
  if digits = 0 ∨ place < -400 then ofMagnitude negative 0
  else if 400 < place then infinity negative
  else ofRatio negative (digits * tenPow exponent.toNat) (tenPow (-exponent).toNat)

/-- an exponent that ends the text, or no text at all -/
def exponent? : List Char → Option Int
  | [] => some 0
  | c :: cs =>
    if c = 'e' ∨ c = 'E' then
      let (negative, rest) := Text.sign cs
      let (digits, rest') := Text.spanDigits rest
      if digits.isEmpty || !rest'.isEmpty then none
      else
        let n : Int := Nat.ofDigitChars 10 digits 0
        some (if negative then -n else n)
    else none

/-- digits with at most one point and an optional exponent -/
def ofUnsigned (negative : Bool) (cs : List Char) : Option Binary64 :=
  let (whole, rest) := Text.spanDigits cs
  let (fraction, rest') := match rest with
    | '.' :: rest => Text.spanDigits rest
    | rest => ([], rest)
  if whole.isEmpty && fraction.isEmpty then none
  else
    (exponent? rest').map fun e =>
      ofScientific negative (Nat.ofDigitChars 10 (whole ++ fraction) 0) (e - fraction.length)

/-- why a text is no double -/
inductive Fault
  | empty
  | malformed
deriving DecidableEq

def Fault.message : Fault → String
  | .empty => "cannot parse float from empty string"
  | .malformed => "invalid float literal"

/-- read a double; the words for infinity and NaN are taken in any case -/
def ofText (cs : List Char) : Except Fault Binary64 :=
  if cs.isEmpty then .error .empty
  else
    let (negative, rest) := Text.sign cs
    let word := rest.map Char.toLower
    if word = "inf".toList ∨ word = "infinity".toList then .ok (infinity negative)
    else if word = "nan".toList then .ok nan
    else
      match ofUnsigned negative rest with
      | some x => .ok x
      | none => .error .malformed

end Binary64

end NestedQuery
