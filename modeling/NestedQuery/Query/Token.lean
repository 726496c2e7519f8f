import NestedQuery.Query.Term

/-!
# Tokens of a query

* `Token`         what a line of a query is broken into;
* `Token.text`    how a message shows a token;
* `Located`       a token with the number of its line.
-/

namespace NestedQuery

inductive Token
  /-- `query M {` -/
  | rootOpen (model : String)
  /-- `r {` -/
  | relationshipOpen (name : String)
  /-- the class in parentheses on the line of a relationship -/
  | cast (model : String)
  /-- `}` -/
  | close
  /-- the name on the line of an attribute -/
  | attr (name : String)
  | filterStart
  | filterEnd
  | openParen
  | closeParen
  | term (t : Term)
  | connective (c : Connective)

def Token.text : Token → String
  | rootOpen model => "`query " ++ model ++ " \x7b`"
  | relationshipOpen name => "`" ++ name ++ " \x7b`"
  | cast model => "cast `(" ++ model ++ ")`"
  | close => "`\x7d`"
  | attr name => "attribute `" ++ name ++ "`"
  | filterStart => "`[`"
  | filterEnd => "`]`"
  | openParen => "`(`"
  | closeParen => "`)`"
  | term t => "`" ++ t.text ++ "`"
  | connective c => "`" ++ c.text ++ "`"

/-- a token and its line, counted from one -/
structure Located where
  line : Nat
  token : Token

end NestedQuery
