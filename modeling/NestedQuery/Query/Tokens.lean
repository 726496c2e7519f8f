import NestedQuery.Error
import NestedQuery.Query.Filter.Tokens
import NestedQuery.Query.Line

/-!
# The tokens of a query

A text is broken into tokens line by line.  The first line that is not blank has to open the
query.  A line at fault gives its error in place of its tokens, and ends the stream.

* `TokenStream`     tokens with their lines, and errors in their place;
* `lineTokens`      the tokens of one line;
* `tokenize`        the tokens of a text.
-/

namespace NestedQuery

abbrev TokenStream := List (Except Error Located)

/-! ## one line -/

/-- the tokens of an attribute and its filter -/
def attributeTokens (line : Nat) (text : List Char) (name : String) :
    Option (Nat × List Char) → Except Error (List Token)
  | none => .ok [.attr name]
  | some (start, body) =>
    match Filter.tokens start body with
    | .ok tokens => .ok (.attr name :: tokens)
    | .error fault => .error (.filter line (String.ofList text) fault)

def lineTokens (line : Nat) (text : List Char) : Except Error (List Token) :=
  match Line.ofText? text with
  | none => .error (.strayLine line (String.ofList text))
  | some (.rootOpen model) => .ok [.rootOpen model]
  | some (.relationshipOpen name none) => .ok [.relationshipOpen name]
  | some (.relationshipOpen name (some cast)) => .ok [.relationshipOpen name, .cast cast]
  | some .close => .ok [.close]
  | some (.attribute name filter) => attributeTokens line text name filter

/-- the line that opens the query -/
def rootTokens (line : Nat) (text : List Char) : Except Error (List Token) :=
  match Line.rootOpen? text with
  | some model => .ok [.rootOpen model]
  | none => .error (.missingRoot line (String.ofList text))

/-! ## all lines -/

/-- the tokens of a line before those of the lines after it, or an error and nothing more -/
def followed (line : Nat) (tokens : Except Error (List Token)) (rest : TokenStream) :
    TokenStream :=
  match tokens with
  | .ok tokens => tokens.map (fun t => .ok ⟨line, t⟩) ++ rest
  | .error e => [.error e]

/-- the tokens of numbered lines after the first -/
def tokensOfLines : List (Nat × List Char) → TokenStream
  | [] => []
  | (line, text) :: rest => followed line (lineTokens line text) (tokensOfLines rest)

def tokenize (text : String) : TokenStream :=
  match Text.numberedLines text.toList with
  | [] => []
  | (line, first) :: rest => followed line (rootTokens line first) (tokensOfLines rest)

theorem tokensOfLines_nil : tokensOfLines [] = [] := rfl

theorem tokensOfLines_cons (line : Nat) (text : List Char) (rest : List (Nat × List Char)) :
    tokensOfLines ((line, text) :: rest) =
      followed line (lineTokens line text) (tokensOfLines rest) := rfl

end NestedQuery
