import NestedQuery.Dict
import NestedQuery.Number.Binary64.Text
import NestedQuery.Text.Ranges

/-!
# JSON documents

* `Json`           a JSON value; the fields of an object are in key order;
* `Json.ofDict`    an object;
* `Json.text`      the compact text: no white space, floats in the document style.
-/

namespace NestedQuery

inductive Json
  | null
  | boolean (b : Bool)
  | integer (n : Int)
  | float (x : Binary64)
  | string (s : String)
  | array (items : List Json)
  | object (fields : List (String × Json))

namespace Json

instance : Inhabited Json := ⟨null⟩

def ofDict (fields : Dict Json) : Json := .object fields.entries

/-! ## text -/

/-- the two characters of a short escape -/
def shortEscape? : Char → Option Char
  | '"' => some '"'
  | '\\' => some '\\'
  | '\x08' => some 'b'
  | '\x0c' => some 'f'
  | '\n' => some 'n'
  | '\r' => some 'r'
  | '\t' => some 't'
  | _ => none

/-- a character inside of quotes -/
def escaped (c : Char) : List Char :=
  match shortEscape? c with
  | some e => ['\\', e]
  | none =>
    if c.toNat < 0x20 then
      ['\\', 'u', '0', '0', Nat.digitChar (c.toNat / 16), Nat.digitChar (c.toNat % 16)]
    else [c]

def quoted (s : String) : List Char := '"' :: s.toList.flatMap escaped ++ ['"']

mutual

def text : Json → List Char
  | null => "null".toList
  | boolean b => (if b then "true" else "false").toList
  | integer n => Text.integer n
  | float x => x.text .document
  | string s => quoted s
  | array items => '[' :: textItems items ++ [']']
  | object fields => '{' :: textFields fields ++ ['}']

/-- the items with a comma between them -/
def textItems : List Json → List Char
  | [] => []
  | [item] => text item
  | item :: rest => text item ++ ',' :: textItems rest

def textFields : List (String × Json) → List Char
  | [] => []
  | [(key, value)] => quoted key ++ ':' :: text value
  | (key, value) :: rest => quoted key ++ ':' :: text value ++ ',' :: textFields rest

end

def render (j : Json) : String := String.ofList j.text

end Json

end NestedQuery
