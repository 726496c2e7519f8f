import NestedQuery.Text.Digits
import NestedQuery.Text.Rest

/-!
# The grammar of JSON text

Reading goes in two steps.  The first finds the structure of a text and keeps numbers and
strings as they are written; the second, in `NestedQuery.Json.Reader`, gives them their meaning.

* `Json.Raw`         the structure of a text;
* `Json.Raw.value`   the value at the start of a text;
* `Json.Raw.ofText`  a text that holds one value and white space.
-/

namespace NestedQuery.Json

/-- a character of a string as written, or the code of an escape with four digits -/
inductive StringPart
  | char (c : Char)
  | code (n : Nat)

/-- the parts of a number as written -/
structure NumberText where
  negative : Bool
  whole : List Char
  fraction : List Char
  /-- `true` for a minus, with the digits -/
  exponent : Option (Bool × List Char)

inductive Raw
  | null
  | boolean (b : Bool)
  | number (n : NumberText)
  | string (parts : List StringPart)
  | array (items : List Raw)
  | object (fields : List (List StringPart × Raw))

namespace Raw

open Text (Rest Shorter)

def isSpace (c : Char) : Bool := c == ' ' || c == '\n' || c == '\t' || c == '\r'

def skipSpace (cs : List Char) : Rest cs := .dropWhile isSpace cs

/-- a word that is read as a whole -/
def word : List Char → (cs : List Char) → Option (Rest cs)
  | [], cs => some (.whole cs)
  | _ :: _, [] => none
  | a :: w, c :: cs => if a = c then (word w cs).map (Rest.cons c) else none

/-! ## strings -/

def hexCode? (a b c d : Char) : Option Nat := do
  let a ← Text.hexValue? a
  let b ← Text.hexValue? b
  let c ← Text.hexValue? c
  let d ← Text.hexValue? d
  return ((a * 16 + b) * 16 + c) * 16 + d

/-- the character of an escape of one letter -/
def escape? : Char → Option Char
  | '"' => some '"'
  | '\\' => some '\\'
  | '/' => some '/'
  | 'b' => some '\x08'
  | 'f' => some '\x0c'
  | 'n' => some '\n'
  | 'r' => some '\r'
  | 't' => some '\t'
  | _ => none

/-- the parts of a string up to its closing quote, and what follows that -/
def stringBody : (cs : List Char) → Option (List StringPart × Shorter cs)
  | [] => none
  | '"' :: rest => some ([], .after '"' rest)
  | '\\' :: 'u' :: a :: b :: c :: d :: rest =>
    (hexCode? a b c d).bind fun n =>
      (stringBody rest).map fun (parts, r) =>
        (.code n :: parts, ((((((r.cons d).cons c).cons b).cons a).cons 'u').cons '\\'))
  | '\\' :: e :: rest =>
    (escape? e).bind fun c =>
      (stringBody rest).map fun (parts, r) => (.char c :: parts, (r.cons e).cons '\\')
  | c :: rest =>
    if c.toNat < 0x20 ∨ c = '\\' then none
    else (stringBody rest).map fun (parts, r) => (.char c :: parts, r.cons c)

/-! ## numbers -/

def digits (cs : List Char) : List Char × Rest cs :=
  (cs.takeWhile Char.isDigit, .dropWhile Char.isDigit cs)

/-- a point and digits, or nothing -/
def fraction? : (cs : List Char) → Option (List Char × Rest cs)
  | '.' :: rest =>
    match digits rest with
    | ([], _) => none
    | (ds, r) => some (ds, r.cons '.')
  | cs => some ([], .whole cs)

/-- an exponent after its letter -/
def signedDigits? : (cs : List Char) → Option ((Bool × List Char) × Rest cs)
  | [] => none
  | c :: rest =>
    if c = '-' ∨ c = '+' then
      match digits rest with
      | ([], _) => none
      | (ds, r) => some ((c == '-', ds), r.cons c)
    else
      match digits (c :: rest) with
      | ([], _) => none
      | (ds, r) => some ((false, ds), r)

/-- a letter `e` and an exponent, or nothing -/
def exponent? : (cs : List Char) → Option (Option (Bool × List Char) × Rest cs)
  | [] => some (none, .whole [])
  | c :: rest =>
    if c = 'e' ∨ c = 'E' then
      (signedDigits? rest).map fun (e, r) => (some e, r.cons c)
    else some (none, .whole (c :: rest))

/-- the digits after a first digit; a zero stands alone -/
def wholeDigits (c : Char) (rest : List Char) : List Char × Rest rest :=
  if c = '0' then ([], .whole rest) else digits rest

/-- a number without its sign, from its first character on -/
def unsigned (negative : Bool) (c : Char) (rest : List Char) : Option (Raw × Rest rest) :=
  if c.isDigit then
    let (more, r) := wholeDigits c rest
    (fraction? r.1).bind fun (fraction, r1) =>
      (exponent? r1.1).map fun (exponent, r2) =>
        (.number ⟨negative, c :: more, fraction, exponent⟩, r.andThen (r1.andThen r2))
  else none

def signed (c : Char) (rest : List Char) : Option (Raw × Rest rest) :=
  if c = '-' then
    match rest with
    | [] => none
    | d :: rest => (unsigned true d rest).map fun (v, r) => (v, r.cons d)
  else unsigned false c rest

/-! ## values -/

/-- the first character after white space, and what follows it -/
def next? (cs : List Char) : Option (Char × Shorter cs) :=
  match skipSpace cs with
  | ⟨[], _⟩ => none
  | ⟨c :: rest, h⟩ => some (c, ⟨rest, Nat.lt_of_succ_le h⟩)

/-- what follows white space and a character -/
def after? (c : Char) (cs : List Char) : Option (Shorter cs) :=
  (next? cs).bind fun (d, r) => if d = c then some r else none

/-- the name of a field with the colon after it -/
def field? (cs : List Char) : Option (List StringPart × Shorter cs) :=
  (after? '"' cs).bind fun r =>
    (stringBody r.1).bind fun (name, s) =>
      (after? ':' s.1).map fun t => (name, r.andThen (s.andThen t.toRest).toRest)

/-- a string, or a word or number that starts with a character -/
def scalar (c : Char) (rest : List Char) : Option (Raw × Rest rest) :=
  if c = '"' then (stringBody rest).map fun (parts, r) => (.string parts, r.toRest)
  else if c = 't' then (word "rue".toList rest).map fun r => (.boolean true, r)
  else if c = 'f' then (word "alse".toList rest).map fun r => (.boolean false, r)
  else if c = 'n' then (word "ull".toList rest).map fun r => (.null, r)
  else signed c rest

mutual

/-- the value at the start of a text, after white space -/
def value (cs : List Char) : Option (Raw × Shorter cs) :=
  (next? cs).bind fun (c, r) =>
    if c = '[' then
      match after? ']' r.1 with
      | some s => some (.array [], r.andThen s.toRest)
      | none => (items r.1).map fun (vs, s) => (.array vs, r.andThen s.toRest)
    else if c = '{' then
      match after? '}' r.1 with
      | some s => some (.object [], r.andThen s.toRest)
      | none => (members r.1).map fun (fields, s) => (.object fields, r.andThen s.toRest)
    else (scalar c r.1).map fun (v, s) => (v, r.andThen s)
termination_by (cs.length, 0)
decreasing_by
  · exact .left _ _ r.2
  · exact .left _ _ r.2

/-- the items of an array that is not empty, up to its closing bracket -/
def items (cs : List Char) : Option (List Raw × Shorter cs) :=
  (value cs).bind fun (first, r) =>
    match after? ',' r.1 with
    | some s =>
      (items (r.andThen s.toRest).1).map fun (others, t) =>
        (first :: others, (r.andThen s.toRest).andThen t.toRest)
    | none => (after? ']' r.1).map fun s => ([first], r.andThen s.toRest)
termination_by (cs.length, 1)
decreasing_by
  · exact .right _ Nat.one_pos
  · exact .left _ _ (r.andThen s.toRest).2

/-- the fields of an object that is not empty, up to its closing brace -/
def members (cs : List Char) : Option (List (List StringPart × Raw) × Shorter cs) :=
  (field? cs).bind fun (name, r) =>
    (value r.1).bind fun (first, s) =>
      match after? ',' s.1 with
      | some t =>
        (members (r.andThen (s.andThen t.toRest).toRest).1).map fun (others, u) =>
          ((name, first) :: others, (r.andThen (s.andThen t.toRest).toRest).andThen u.toRest)
      | none =>
        (after? '}' s.1).map fun t => ([(name, first)], r.andThen (s.andThen t.toRest).toRest)
termination_by (cs.length, 1)
decreasing_by
  · exact .left _ _ r.2
  · exact .left _ _ (r.andThen (s.andThen t.toRest).toRest).2

end

/-- one value, with white space around it and nothing else -/
def ofText (cs : List Char) : Option Raw :=
  (value cs).bind fun (v, r) => if (skipSpace r.1).1.isEmpty then some v else none

end Raw

end NestedQuery.Json
