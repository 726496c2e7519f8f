import NestedQuery.Json.Basic
import NestedQuery.Text.Quoted

/-!
# Documents of an expected form

A decoder takes a document to what it stands for, or says why it has another form.

* `Json.Misfit`, `Json.Misfit.message`   the ways not to have a form;
* `Json.Decoder`                   decoders, with strings, lists, dictionaries and words from a
                                   choice;
* `Json.field?`, `Json.element?`   the parts of a record, which is an object, or an array of
                                   the fields in order.
-/

namespace NestedQuery.Json

/-- why a document does not have the expected form -/
inductive Misfit
  | kind (found : Json) (expected : String)
  | notSingleton
  | missingField (name : String)
  | unknownChoice (found : String) (choices : List String)
  /-- no alternative of a form fits -/
  | noAlternative (form : String)
  /-- a record given as an array that ends too soon -/
  | tooShort (length : Nat) (form : String) (fields : Nat)
  | tooLong (length : Nat)
  | notObject

/-- a document as messages describe it -/
def describe : Json → String
  | .null => "null"
  | .boolean b => s!"boolean `{b}`"
  | .integer n => s!"integer `{n}`"
  | .float x => "floating point `" ++ String.ofList (x.text .document) ++ "`"
  | .string s => "string " ++ Text.quoted s
  | .array _ => "sequence"
  | .object _ => "map"

/-- two or more words as alternatives -/
def alternatives (choices : List String) : String :=
  String.intercalate " or " (choices.map fun c => "`" ++ c ++ "`")

def Misfit.message : Misfit → String
  | kind found expected => "invalid type: " ++ found.describe ++ ", expected " ++ expected
  | notSingleton => "invalid value: map, expected map with a single key"
  | missingField name => s!"missing field `{name}`"
  | unknownChoice found choices =>
    s!"unknown variant `{found}`, expected " ++ alternatives choices
  | noAlternative form => s!"data did not match any variant of untagged enum {form}"
  | tooShort length form fields =>
    s!"invalid length {length}, expected struct {form} with {fields} elements"
  | tooLong length => s!"invalid length {length}, expected fewer elements in array"
  | notObject => "expected a JSON object"

abbrev Decoder (α : Type) := Json → Except Misfit α

/-! ## decoders -/

def asString : Decoder String
  | .string s => .ok s
  | found => .error (.kind found "a string")

/-- null stands for nothing -/
def asOptional {α : Type} (decode : Decoder α) : Decoder (Option α)
  | .null => .ok none
  | found => (decode found).map some

/-- every item decoded, up to the first that does not fit -/
def decodeAll {α : Type} (decode : Decoder α) : List Json → Except Misfit (List α)
  | [] => .ok []
  | item :: rest => (decode item).bind fun a => (decodeAll decode rest).map (a :: ·)

def asList {α : Type} (decode : Decoder α) : Decoder (List α)
  | .array items => decodeAll decode items
  | found => .error (.kind found "a sequence")

def decodeFields {α : Type} (decode : Decoder α) :
    List (String × Json) → Except Misfit (List (String × α))
  | [] => .ok []
  | (key, value) :: rest =>
    (decode value).bind fun a => (decodeFields decode rest).map ((key, a) :: ·)

def asDict {α : Type} (decode : Decoder α) : Decoder (Dict α)
  | .object fields => (decodeFields decode fields).map .ofList
  | found => .error (.kind found "a map")

/-- a word from a choice -/
def chosen {α : Type} (choices : List (String × α)) (word : String) : Except Misfit α :=
  match choices.lookup word with
  | some a => .ok a
  | none => .error (.unknownChoice word (choices.map (·.1)))

/-- a word from a choice, or an object whose one key is the word and whose value is null -/
def asChoice {α : Type} (choices : List (String × α)) : Decoder α
  | .string word => chosen choices word
  | .object [(word, value)] =>
    (chosen choices word).bind fun a =>
      match value with
      | .null => .ok a
      | found => .error (.kind found "unit")
  | .object _ => .error .notSingleton
  | found => .error (.kind found "string or map")

/-! ## records -/

/-- a field of an object, if the object has it -/
def field? {α : Type} (fields : List (String × Json)) (name : String) (decode : Decoder α) :
    Except Misfit (Option α) :=
  match fields.lookup name with
  | some value => (decode value).map some
  | none => .ok none

/-- a field that an object has to have -/
def required {α : Type} (name : String) : Option α → Except Misfit α
  | some a => .ok a
  | none => .error (.missingField name)

/-- the first of the items, if there is one, and the others -/
def element? {α : Type} (decode : Decoder α) : List Json → Except Misfit (Option α × List Json)
  | [] => .ok (none, [])
  | item :: rest => (decode item).map fun a => (some a, rest)

/-- a field that an array has to have at its place among `fields` ones -/
def requiredAt {α : Type} (form : String) (fields place : Nat) : Option α → Except Misfit α
  | some a => .ok a
  | none => .error (.tooShort place form fields)

/-- no items are left of an array of some length -/
def exhausted (length : Nat) : List Json → Except Misfit Unit
  | [] => .ok ()
  | _ :: _ => .error (.tooLong length)

end NestedQuery.Json
