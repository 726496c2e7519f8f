import NestedQuery.Text.Digits
import NestedQuery.Text.Lines

/-!
# Universally unique identifiers

An identifier is 128 bits.  It is written as 32 hexadecimal digits in five groups of 8, 4, 4, 4
and 12; it is also read without hyphens, in braces, or after `urn:uuid:`.

* `Uuid.text`      the hyphenated form, in lower case;
* `Uuid.ofText`    reading, with the first fault of a text that is none.
-/

namespace NestedQuery

structure Uuid where
  bits : BitVec 128
deriving DecidableEq

namespace Uuid

def compare (a b : Uuid) : Ordering := Ord.compare a.bits.toNat b.bits.toNat

/-! ## printing -/

/-- the lowest `count` hexadecimal digits of a number, highest first -/
def hexDigits : Nat → Nat → List Char
  | 0, _ => []
  | count + 1, n => hexDigits count (n / 16) ++ [Nat.digitChar (n % 16)]

theorem length_hexDigits (count n : Nat) : (hexDigits count n).length = count := by
  induction count generalizing n with
  | zero => rfl
  | succ count ih => rw [hexDigits, List.length_append, ih, List.length_singleton]

/-- a hyphen before the groups after the first -/
def hyphenated (digits : List Char) : List Char :=
  digits.take 8 ++ '-' :: (digits.drop 8).take 4 ++ '-' :: (digits.drop 12).take 4
    ++ '-' :: (digits.drop 16).take 4 ++ '-' :: digits.drop 20

def text (u : Uuid) : List Char := hyphenated (hexDigits 32 u.bits.toNat)

/-! ## reading -/

/-- the number of a list of hexadecimal digits, after `acc` -/
def hexNumber? (acc : Nat) : List Char → Option Nat
  | [] => some acc
  | c :: cs => (Text.hexValue? c).bind fun v => hexNumber? (16 * acc + v) cs

/-- thirty-two hexadecimal digits -/
def ofDigits (cs : List Char) : Option Uuid :=
  if cs.length = 32 then (hexNumber? 0 cs).map fun n => ⟨BitVec.ofNat 128 n⟩ else none

/-- the five groups with a hyphen between them -/
def ofHyphenated (cs : List Char) : Option Uuid :=
  if cs.length = 36 ∧ [8, 13, 18, 23].all (fun i => cs[i]? = some '-') then
    ofDigits (cs.take 8 ++ (cs.drop 9).take 4 ++ (cs.drop 14).take 4 ++ (cs.drop 19).take 4
      ++ cs.drop 24)
  else none

/-- what stands between a brace at the start and one at the end -/
def unbraced? : List Char → Option (List Char)
  | '{' :: rest => if rest.getLast? = some '}' then some rest.dropLast else none
  | _ => none

/-- what follows `urn:uuid:`, in any case -/
def afterUrn? (cs : List Char) : Option (List Char) :=
  if (cs.take 9).map Char.toLower = "urn:uuid:".toList then some (cs.drop 9) else none

/-- why a text is no identifier -/
inductive Fault
  | length (found : Nat)
  | character (found : Char) (index : Nat)
  | groupCount (found : Nat)
  | groupLength (group expected found : Nat)
deriving DecidableEq

def Fault.message : Fault → String
  | .length found => s!"invalid length: found {found}"
  | .character found index => s!"invalid character: found `{found}` at {index}"
  | .groupCount found => s!"invalid group count: expected 5, found {found}"
  | .groupLength group expected found =>
    s!"invalid group length in group {group}: expected {expected}, found {found}"

/-- the first character that is neither a hexadecimal digit nor a hyphen, and its index -/
def strayCharacter? (index : Nat) : List Char → Option (Char × Nat)
  | [] => none
  | c :: cs =>
    if c = '-' ∨ (Text.hexValue? c).isSome then strayCharacter? (index + 1) cs else some (c, index)

/-- the indices of the hyphens -/
def hyphens (index : Nat) : List Char → List Nat
  | [] => []
  | c :: cs => if c = '-' then index :: hyphens (index + 1) cs else hyphens (index + 1) cs

/-- the first group whose hyphen is not in its place, else the last group -/
def groupFault (length : Nat) : List Nat → Fault
  | [a, b, c, d] =>
    if a ≠ 8 then .groupLength 0 8 a
    else if b ≠ 13 then .groupLength 1 4 (b - 9)
    else if c ≠ 18 then .groupLength 2 4 (c - 14)
    else if d ≠ 23 then .groupLength 3 4 (d - 19)
    else .groupLength 4 12 (length - 24)
  | indices => .groupCount (indices.length + 1)

/-- the fault of a text of which `inner` is left when `offset` characters of wrapping are taken
off; a text that was not wrapped may do without hyphens, so only its length is at fault -/
def wrappedFault (length offset : Nat) (plain : Bool) (inner : List Char) : Fault :=
  match strayCharacter? offset inner with
  | some (c, index) => .character c index
  | none =>
    if plain && (hyphens 0 inner).isEmpty then .length length
    else groupFault length (hyphens 0 inner)

/-- the fault of a text that has not the length of a hyphenated form -/
def faultOf (cs : List Char) : Fault :=
  let length := Text.byteLength cs
  match unbraced? cs, afterUrn? cs with
  | some inner, _ => wrappedFault length 1 false inner
  | none, some inner => wrappedFault length 9 false inner
  | none, none => wrappedFault length 0 true cs

/-- the part of a text that has to be the hyphenated form, by the text's length in bytes -/
def hyphenatedPart? (cs : List Char) : Option (List Char) :=
  match Text.byteLength cs with
  | 36 => some cs
  | 38 => unbraced? cs
  | 45 => afterUrn? cs
  | _ => none

def ofText (cs : List Char) : Except Fault Uuid :=
  let length := Text.byteLength cs
  if length = 0 ∨ 45 < length then .error (.length length)
  else
    match hyphenatedPart? cs with
    | some inner =>
      match ofHyphenated inner with
      | some u => .ok u
      | none => .error (wrappedFault (Text.byteLength inner) 0 false inner)
    | none =>
      match ofDigits cs with
      | some u => .ok u
      | none => .error (faultOf cs)

end Uuid

end NestedQuery
