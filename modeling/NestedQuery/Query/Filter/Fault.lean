import NestedQuery.Query.Term

/-!
# Faults of a filter

* `Filter.Flaw`     what is wrong at one column of a filter;
* `Filter.Fault`    what is wrong with a filter: a flaw at a column, or parts that do not suit
                    each other.
-/

namespace NestedQuery.Filter

/-- something that may not stand at a column, or is missing there -/
inductive Flaw
  /-- a piece of text that is no lexeme -/
  | stray (piece : String)
  | noSelector
  | noOperator
  | noValue
  | missingValue
  | noElement
  | noSeparator
  | emptyList
  | unclosedList
  | noConnective
  | missingTerm
  | unopenedParen
  | unclosedParen
deriving DecidableEq

def Flaw.message : Flaw → String
  | stray piece => s!"unexpected `{piece}`"
  | noSelector => "expected a selector or `(`"
  | noOperator => "missing operator"
  | noValue => "expected a value"
  | missingValue => "missing value"
  | noElement => "expected a list element"
  | noSeparator => "expected `,` or `]`"
  | emptyList => "empty list"
  | unclosedList => "unclosed list"
  | noConnective => "expected `and`, `or` or `)`"
  | missingTerm => "missing filter term"
  | unopenedParen => "unbalanced `)`"
  | unclosedParen => "unbalanced `(`"

inductive Fault
  /-- the column counts the characters of the line before the flaw -/
  | malformed (column : Nat) (flaw : Flaw)
  /-- a list where the operator compares with a scalar, or the reverse -/
  | unsuitedLiteral (operator : Operator)
  | orderedBoolean (operator : Operator)
  | mixedList (first other : LiteralKind)
  | mixedSelectors
  | mixedLiterals (first other : LiteralKind)
deriving DecidableEq

end NestedQuery.Filter
