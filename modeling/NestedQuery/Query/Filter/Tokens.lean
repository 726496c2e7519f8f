import NestedQuery.Query.Filter.Fault
import NestedQuery.Query.Filter.Lexeme
import NestedQuery.Query.Token

/-!
# Tokens of a filter

The lexemes of a filter make terms, which stand between parentheses and connectives.  A scanner
goes through the lexemes with what it expects next and the number of open parentheses.

* `Filter.Expecting`             the states of the scanner; a term is read part by part;
* `Filter.step`, `Filter.scan`   one lexeme, all lexemes;
* `Filter.uniform`               one way to select and one kind of literal in the whole filter;
* `Filter.tokens`                the tokens of the text between the brackets.
-/

namespace NestedQuery.Filter

/-- what the next lexeme has to be, with the parts of a term that were read -/
inductive Expecting
  | term
  | operator (selector : Selector)
  | value (selector : Selector) (op : Operator)
  /-- an element of a list that was opened at a column -/
  | element (selector : Selector) (op : Operator) (opened : Nat) (items : List Literal)
  | separator (selector : Selector) (op : Operator) (opened : Nat) (items : List Literal)
  | connective

structure State where
  /-- parentheses that are open -/
  depth : Nat
  expecting : Expecting

/-! ## terms -/

/-- a term of parts that suit each other -/
def completed (selector : Selector) (op : Operator) (literal : Literal) : Except Fault Term :=
  if op.takesList ≠ literal.isList then .error (.unsuitedLiteral op)
  else if literal.kind? = some .boolean ∧ op ≠ .eq then .error (.orderedBoolean op)
  else .ok ⟨selector, op, literal⟩

/-- two kinds that both are known and differ -/
def clash : Option LiteralKind → Option LiteralKind → Option (LiteralKind × LiteralKind)
  | some first, some other => if first = other then none else some (first, other)
  | _, _ => none

/-- one more element, of the kind of the first -/
def extended (items : List Literal) (item : Literal) : Except Fault (List Literal) :=
  match clash (Literal.list items).kind? item.kind? with
  | some (first, other) => .error (.mixedList first other)
  | none => .ok (items ++ [item])

/-! ## the scanner -/

/-- the tokens that a lexeme completes, and the state after it -/
abbrev Step := Except Fault (List Token × State)

def move (s : State) (expecting : Expecting) : Step := .ok ([], ⟨s.depth, expecting⟩)

/-- the last part of a term -/
def finishTerm (s : State) (selector : Selector) (op : Operator) (literal : Literal) : Step :=
  match completed selector op literal with
  | .error fault => .error fault
  | .ok t => .ok ([.term t], ⟨s.depth, .connective⟩)

def stepTerm (s : State) (p : Placed) : Step :=
  match p.lexeme with
  | .openParen => .ok ([.openParen], ⟨s.depth + 1, .term⟩)
  | .selector selector => move s (.operator selector)
  | _ => .error (.malformed p.column .noSelector)

def stepOperator (s : State) (selector : Selector) (p : Placed) : Step :=
  match p.lexeme with
  | .operator op => move s (.value selector op)
  | _ => .error (.malformed p.column .noOperator)

def stepValue (s : State) (selector : Selector) (op : Operator) (p : Placed) : Step :=
  if p.lexeme = .openBracket then move s (.element selector op p.column [])
  else
    match p.lexeme.literal? with
    | some literal => finishTerm s selector op literal
    | none => .error (.malformed p.column .noValue)

def stepElement (s : State) (selector : Selector) (op : Operator) (opened : Nat)
    (items : List Literal) (p : Placed) : Step :=
  match p.lexeme.literal? with
  | some item =>
    match extended items item with
    | .error fault => .error fault
    | .ok items => move s (.separator selector op opened items)
  | none =>
    if p.lexeme = .closeBracket ∧ items.isEmpty then .error (.malformed opened .emptyList)
    else .error (.malformed p.column .noElement)

def stepSeparator (s : State) (selector : Selector) (op : Operator) (opened : Nat)
    (items : List Literal) (p : Placed) : Step :=
  match p.lexeme with
  | .comma => move s (.element selector op opened items)
  | .closeBracket => finishTerm s selector op (.list items)
  | _ => .error (.malformed p.column .noSeparator)

def stepConnective (s : State) (p : Placed) : Step :=
  match p.lexeme with
  | .closeParen =>
    match s.depth with
    | 0 => .error (.malformed p.column .unopenedParen)
    | depth + 1 => .ok ([.closeParen], ⟨depth, .connective⟩)
  | .connective c => .ok ([.connective c], ⟨s.depth, .term⟩)
  | _ => .error (.malformed p.column .noConnective)

def step (s : State) (p : Placed) : Step :=
  match s.expecting with
  | .term => stepTerm s p
  | .operator selector => stepOperator s selector p
  | .value selector op => stepValue s selector op p
  | .element selector op opened items => stepElement s selector op opened items p
  | .separator selector op opened items => stepSeparator s selector op opened items p
  | .connective => stepConnective s p

/-- the flaw of a filter that ends before the column `stop` in a state, if any -/
def finish (stop : Nat) (s : State) : Except Fault Unit :=
  match s.expecting with
  | .term => .error (.malformed stop .missingTerm)
  | .operator _ => .error (.malformed stop .noOperator)
  | .value _ _ => .error (.malformed stop .missingValue)
  | .element _ _ opened _ => .error (.malformed opened .unclosedList)
  | .separator _ _ _ _ => .error (.malformed stop .noSeparator)
  | .connective => if s.depth = 0 then .ok () else .error (.malformed stop .unclosedParen)

/-- the tokens that the lexemes of a filter complete, from a state on -/
def scan (stop : Nat) (s : State) : List Placed → Except Fault (List Token)
  | [] => (finish stop s).map fun _ => []
  | p :: rest => (step s p).bind fun r => (scan stop r.2 rest).map (r.1 ++ ·)

theorem scan_nil (stop : Nat) (s : State) :
    scan stop s [] = (finish stop s).map fun _ => [] := rfl

theorem scan_cons (stop : Nat) (s : State) (p : Placed) (rest : List Placed) :
    scan stop s (p :: rest) =
      (step s p).bind fun r => (scan stop r.2 rest).map (r.1 ++ ·) := rfl

/-! ## the whole filter -/

/-- the terms among tokens -/
def terms (tokens : List Token) : List Term :=
  tokens.filterMap fun
    | .term t => some t
    | _ => none

/-- all terms are about the row itself or none is, and all literals are of the first one's kind -/
def uniform : List Term → Except Fault Unit
  | [] => .ok ()
  | first :: rest =>
    if rest.any fun t => t.selector.isQuantified != first.selector.isQuantified then
      .error .mixedSelectors
    else
      match rest.findSome? fun t => clash first.literal.kind? t.literal.kind? with
      | some (first, other) => .error (.mixedLiterals first other)
      | none => .ok ()

/-- the tokens of the text between the brackets, which starts at the column `start` -/
def tokens (start : Nat) (body : List Char) : Except Fault (List Token) :=
  match lexemes start body with
  | .error (column, piece) => .error (.malformed column (.stray (String.ofList piece)))
  | .ok placed =>
    (scan (start + body.length) ⟨0, .term⟩ placed).bind fun scanned =>
      (uniform (terms scanned)).map fun _ => .filterStart :: scanned ++ [.filterEnd]

end NestedQuery.Filter
