import NestedQuery.Text.Word
import NestedQuery.Text.Blank

/-!
# Lines of a query

Every line of a query opens the query, opens a relationship, closes a block or names an
attribute.  White space may stand between the parts of a line.

* `Line`            the kinds of lines, with the names and the filter on them;
* `Line.ofText?`    the line of a text without white space around it.
-/

namespace NestedQuery

inductive Line
  /-- `query M {` -/
  | rootOpen (model : String)
  /-- `r {`, or `r (M) {` -/
  | relationshipOpen (name : String) (cast : Option String)
  /-- `}` -/
  | close
  /-- a name, perhaps with a filter in brackets: the column where the text between the brackets
  starts, and the text -/
  | attribute (name : String) (filter : Option (Nat × List Char))

namespace Line

/-- the text is a brace that opens a block, after white space -/
def isOpening (cs : List Char) : Bool := Text.skipBlanks cs == ['{']

/-- what follows the word `query` and at least one blank -/
def afterQuery? : List Char → Option (List Char)
  | 'q' :: 'u' :: 'e' :: 'r' :: 'y' :: c :: cs => if Text.isBlank c then some cs else none
  | _ => none

/-- the model of a line that opens the query -/
def rootOpen? (cs : List Char) : Option String :=
  (afterQuery? cs).bind fun rest =>
    (Text.name? (Text.skipBlanks rest)).bind fun (model, rest) =>
      if isOpening rest then some model else none

/-- a class in parentheses and the brace that opens a block, after the first parenthesis -/
def castOpening? (cs : List Char) : Option String :=
  (Text.name? (Text.skipBlanks cs)).bind fun (cast, rest) =>
    match Text.skipBlanks rest with
    | ')' :: rest => if isOpening rest then some cast else none
    | _ => none

/-- the name and the class of a line that opens a relationship -/
def relationshipOpen? (cs : List Char) : Option (String × Option String) :=
  (Text.name? cs).bind fun (name, rest) =>
    if isOpening rest then some (name, none)
    else
      match Text.skipBlanks rest with
      | '(' :: rest => (castOpening? rest).map fun cast => (name, some cast)
      | _ => none

/-- the name and the filter of a line for an attribute; the last bracket closes the filter -/
def attribute? (cs : List Char) : Option (String × Option (Nat × List Char)) :=
  (Text.name? cs).bind fun (name, rest) =>
    match Text.skipBlanks rest with
    | [] => some (name, none)
    | '[' :: inner =>
      if inner.getLast? = some ']' then
        some (name, some (cs.length - inner.length, inner.dropLast))
      else none
    | _ => none

def ofText? (cs : List Char) : Option Line :=
  if cs = ['}'] then some .close
  else
    match rootOpen? cs with
    | some model => some (.rootOpen model)
    | none =>
      match relationshipOpen? cs with
      | some (name, cast) => some (.relationshipOpen name cast)
      | none => (attribute? cs).map fun (name, filter) => .attribute name filter

end Line

end NestedQuery
