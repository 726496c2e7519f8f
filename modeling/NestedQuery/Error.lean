import NestedQuery.Coercion.Fault
import NestedQuery.Json.Form
import NestedQuery.Plan.Alias
import NestedQuery.Query.Filter.Fault
import NestedQuery.Query.Token
import NestedQuery.Schema.Build
import NestedQuery.Text.Lines

/-!
# Errors

Everything that can go wrong between the text of a query and its document, and while a schema
and its rows are loaded.

* `Error`              the causes;
* `Error.message`      the wording of each;
* `Error.category`     whether the text, its meaning, the evaluation or the surroundings are at
                       fault;
* `Error.isClient`     whether the query is at fault.
-/

namespace NestedQuery

/-- what a query has to go on with -/
inductive Expectation
  | rootOpen
  | endOfQuery
  | member
  | filterEnd
  | closeParen
  | term
  | termOrParen
deriving DecidableEq

def Expectation.text : Expectation → String
  | rootOpen => "`query <Model> \x7b`"
  | endOfQuery => "end of query"
  | member => "an attribute, a relationship or `\x7d`"
  | filterEnd => "`]`"
  | closeParen => "`)`"
  | term => "a filter term"
  | termOrParen => "a filter term or `(`"

/-- a place where a selector may not stand -/
inductive SelectorContext
  | toMany (relationship : String)
  | toOne (relationship : String)
  | root (model : String)
deriving DecidableEq

def SelectorContext.text : SelectorContext → String
  | toMany relationship => s!"to-many relationship `{relationship}`"
  | toOne relationship => s!"singular relationship `{relationship}`"
  | root model => s!"root model `{model}`"

inductive Error
  /-- a line of none of the four kinds -/
  | strayLine (line : Nat) (text : String)
  | missingRoot (line : Nat) (text : String)
  | filter (line : Nat) (text : String) (fault : Filter.Fault)
  | unterminatedBlock (model : String)
  | unexpectedToken (found : Located) (expected : Expectation)
  | unexpectedEnd (expected : Expectation)
  | unknownModel (name : String)
  | unknownAttribute (model name : String)
  | unknownRelationship (model name : String)
  /-- the class in parentheses is no variant of the target -/
  | invalidCast (model relationship target cast : String)
  | misplacedSelector (selector : Selector) (context : SelectorContext)
  | typeMismatch (column : Attribute) (found : String)
  | invalidLiteral (column : Attribute) (literal : Value) (fault : Coercion.Fault)
  | unboundAlias (a : Alias)
  /-- a column of a related row where no row is related -/
  | unrelatedColumn (column : String)
  | unknownColumn (model column : String)
  /-- a slot that no object of a graph is in -/
  | danglingSlot (slot : Nat)
  | schema (fault : Schema.Fault)
  | unreadableFixture
  | misshapenFixture (misfit : Json.Misfit)
  | nestedObject
  | rejectedRow (model : String) (index : Nat) (cause : Error)
  | invalidConfig

namespace Error

inductive Category
  /-- the text does not have the form of a query -/
  | lex
  /-- the query does not suit the schema -/
  | semantic
  | evaluation
  | ambient
deriving DecidableEq

def category : Error → Category
  | strayLine _ _ | missingRoot _ _ | unterminatedBlock _ | unexpectedToken _ _
  | unexpectedEnd _ | filter _ _ (.malformed _ _) => .lex
  | filter _ _ _ | unknownModel _ | unknownAttribute _ _ | unknownRelationship _ _
  | invalidCast _ _ _ _ | misplacedSelector _ _ | typeMismatch _ _ | invalidLiteral _ _ _ =>
    .semantic
  | unboundAlias _ | unrelatedColumn _ | unknownColumn _ _ => .evaluation
  | danglingSlot _ | schema _ | unreadableFixture | misshapenFixture _ | nestedObject
  | rejectedRow _ _ _ | invalidConfig => .ambient

/-- the query is at fault, not the program or its data -/
def isClient (e : Error) : Bool :=
  match e.category with
  | .lex | .semantic => true
  | .evaluation | .ambient => false

/-! ## wording -/

/-- the number of bytes before a column of a line -/
def byteOffset (text : String) (column : Nat) : Nat :=
  Text.byteLength (text.toList.take column)

/-- a line, and below it a caret at a column -/
def pointer (text : String) (column : Nat) : String :=
  text ++ "\n" ++ String.ofList (List.replicate column ' ') ++ "^"

def filterMessage (line : Nat) (text : String) : Filter.Fault → String
  | .malformed column flaw =>
    s!"line {line}: {flaw.message} at offset {byteOffset text column}\n" ++ pointer text column
  | .unsuitedLiteral op =>
    let wanted := if op.takesList then "a list value" else "a scalar value"
    s!"line {line}: operator `{op.text}` requires {wanted}"
  | .orderedBoolean op =>
    s!"line {line}: boolean values only support `==`, found `{op.text}`"
  | .mixedList first other =>
    s!"line {line}: list literal mixes {first.text} and {other.text} elements"
  | .mixedSelectors => s!"line {line}: filter mixes `*` with quantified selectors"
  | .mixedLiterals first other =>
    s!"line {line}: filter mixes {first.text} and {other.text} literals"

/-- an attribute with the model that declares it -/
def attributeName (a : Attribute) : String := s!"{a.model}.{a.name}"

def message : Error → String
  | strayLine line text => s!"line {line}: cannot tokenize `{text}`"
  | missingRoot line text =>
    s!"line {line}: expected a query model on the first line but received `{text}` instead"
  | filter line text fault => filterMessage line text fault
  | unterminatedBlock model => s!"closing \x7d not found while parsing {model}"
  | unexpectedToken found expected =>
    s!"line {found.line}: expected {expected.text}, found {found.token.text}"
  | unexpectedEnd expected => s!"unexpected end of query, expected {expected.text}"
  | unknownModel name => s!"unknown model `{name}`"
  | unknownAttribute model name => s!"model `{model}` has no attribute `{name}`"
  | unknownRelationship model name => s!"model `{model}` has no relationship `{name}`"
  | invalidCast model relationship target cast =>
    s!"cannot cast relationship `{model}.{relationship}` to `{cast}`: "
      ++ s!"not a variant of `{target}`"
  | misplacedSelector selector context =>
    s!"cannot specify `{selector.text}` filter on {context.text}"
  | typeMismatch column found =>
    s!"type mismatch on `{attributeName column}`: expected {column.type.key}, found {found}"
  | invalidLiteral column literal fault =>
    s!"invalid {column.type.key} literal for `{attributeName column}`: "
      ++ s!"{literal.display} ({fault.message})"
  | unboundAlias a => s!"evaluation error: alias {a.text} is not joined"
  | unrelatedColumn column =>
    s!"evaluation error: related column `{column}` outside of an EXISTS"
  | unknownColumn model column => s!"engine error: model `{model}` has no column `{column}`"
  | danglingSlot slot => s!"serialization error: dangling object key {slot}"
  | schema fault => s!"schema error: {fault.message}"
  | unreadableFixture => "configuration error: invalid fixture"
  | misshapenFixture misfit => s!"configuration error: invalid fixture: {misfit.message}"
  | nestedObject => "configuration error: nested objects are not column values"
  | rejectedRow model index cause =>
    s!"configuration error: {model} row {index}: {cause.message}"
  | invalidConfig => "configuration error: invalid config"

end Error

end NestedQuery
