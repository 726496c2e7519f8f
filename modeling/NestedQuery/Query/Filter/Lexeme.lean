import NestedQuery.Query.Term
import NestedQuery.Text.Rest
import NestedQuery.Text.Word

/-!
# Lexemes of a filter

The smallest parts of the text between the brackets of a filter.  Of several readings the
longest counts; blanks, tabs, carriage returns and form feeds may stand between lexemes.

* `Lexeme`              brackets, keywords, operators and scalar literals;
* `Lexeme.read`         the lexeme at the start of a text, or the piece of text that is none;
* `Placed`, `lexemes`   the lexemes of a text, each with its column.
-/

namespace NestedQuery

inductive Lexeme
  | openParen
  | closeParen
  | openBracket
  | closeBracket
  | comma
  | selector (s : Selector)
  | operator (op : Operator)
  | connective (c : Connective)
  | string (s : String)
  | integer (n : Int64)
  | boolean (b : Bool)
deriving DecidableEq

namespace Lexeme

/-- the literal of a scalar lexeme -/
def literal? : Lexeme → Option Literal
  | string s => some (.string s)
  | integer n => some (.integer n)
  | boolean b => some (.boolean b)
  | _ => none

open Text (Rest)

/-- a lexeme and the rest of the text, or the piece of text that is no lexeme -/
abbrev Reading (cs : List Char) := Except (List Char) (Lexeme × Rest cs)

/-! ## words and integers -/

def keywords : List (String × Lexeme) :=
  [("and", .connective .and), ("or", .connective .or), ("any", .selector .any),
   ("all", .selector .all), ("in", .operator .isIn), ("true", .boolean true),
   ("false", .boolean false)]

/-- the longest word that starts with `c`; only keywords are lexemes -/
def readWord (c : Char) (cs : List Char) : Reading cs :=
  let word := c :: cs.takeWhile Text.isAsciiWordChar
  match keywords.lookup (String.ofList word) with
  | some lexeme => .ok (lexeme, .dropWhile Text.isAsciiWordChar cs)
  | none => .error word

/-- the integer of 64 bits with a sign and digits -/
def int64? (negative : Bool) (digits : List Char) : Option Int64 :=
  let n : Int := Nat.ofDigitChars 10 digits 0
  let n := if negative then -n else n
  if -0x8000000000000000 ≤ n ∧ n < 0x8000000000000000 then some (Int64.ofInt n) else none

/-- all digits after the first character, which is a digit or a minus sign -/
def readInteger (c : Char) (cs : List Char) : Reading cs :=
  let digits := cs.takeWhile Char.isDigit
  match if c = '-' then int64? true digits else int64? false (c :: digits) with
  | some n => .ok (.integer n, .dropWhile Char.isDigit cs)
  | none => .error (c :: digits)

/-! ## strings -/

/-- what a backslash and a character stand for -/
def unescaped : Char → Char
  | 'n' => '\n'
  | 't' => '\t'
  | 'r' => '\r'
  | c => c

/-- the characters up to the closing quote, and what follows it -/
def stringBody (quote : Char) : (cs : List Char) → Option (List Char × Rest cs)
  | [] => none
  | c :: rest =>
    if c = quote then some ([], .after c rest)
    else if c = '\\' then
      match rest with
      | [] => none
      | d :: rest' =>
        (stringBody quote rest').map fun (body, r) => (unescaped d :: body, (r.cons d).cons c)
    else (stringBody quote rest).map fun (body, r) => (c :: body, r.cons c)

/-- a text without a backslash at its end that nothing follows -/
def escapedText : List Char → List Char
  | [] => []
  | ['\\'] => []
  | '\\' :: d :: rest => '\\' :: d :: escapedText rest
  | c :: rest => c :: escapedText rest

/-- a string without a closing quote takes the whole text, up to a backslash that escapes
nothing -/
def readString (quote : Char) (cs : List Char) : Reading cs :=
  match stringBody quote cs with
  | some (body, rest) => .ok (.string (String.ofList body), rest)
  | none => .error (quote :: escapedText cs)

/-! ## all lexemes -/

/-- operators of two characters -/
def pair? : Char → Char → Option Operator
  | '=', '=' => some .eq
  | '!', '=' => some .ne
  | '>', '=' => some .ge
  | '<', '=' => some .le
  | _, _ => none

/-- lexemes of one character -/
def single? : Char → Option Lexeme
  | '(' => some openParen
  | ')' => some closeParen
  | '[' => some openBracket
  | ']' => some closeBracket
  | ',' => some comma
  | '*' => some (selector .star)
  | '>' => some (operator .gt)
  | '<' => some (operator .lt)
  | _ => none

def readSingle (c : Char) (cs : List Char) : Reading cs :=
  match single? c with
  | some lexeme => .ok (lexeme, .whole cs)
  | none => .error [c]

/-- an operator of two characters, or else a lexeme of one -/
def readSymbol (c : Char) : (cs : List Char) → Reading cs
  | [] => readSingle c []
  | d :: rest =>
    match pair? c d with
    | some op => .ok (operator op, .after d rest)
    | none => readSingle c (d :: rest)

def startsWithDigit : List Char → Bool
  | [] => false
  | c :: _ => c.isDigit

/-- the lexeme at the start of the text `c :: cs` -/
def read (c : Char) (cs : List Char) : Reading cs :=
  if Text.isAsciiLetter c then readWord c cs
  else if c.isDigit || c == '-' && startsWithDigit cs then readInteger c cs
  else if c = '"' ∨ c = '\'' then readString c cs
  else readSymbol c cs

end Lexeme

/-- a lexeme and the column of its first character -/
structure Placed where
  column : Nat
  lexeme : Lexeme
deriving DecidableEq

/-- the white space that may stand between lexemes -/
def isGap (c : Char) : Bool := c == ' ' || c == '\t' || c == '\r' || c == '\x0c'

/-- the lexemes of a text whose first character is at `column`, or the first piece of the text
that is no lexeme, with its column -/
def lexemes (column : Nat) : List Char → Except (Nat × List Char) (List Placed)
  | [] => .ok []
  | c :: cs =>
    if isGap c then lexemes (column + 1) cs
    else
      match Lexeme.read c cs with
      | .error piece => .error (column, piece)
      | .ok (lexeme, ⟨rest, _h⟩) =>
        match lexemes (column + 1 + (cs.length - rest.length)) rest with
        | .error stray => .error stray
        | .ok placed => .ok (⟨column, lexeme⟩ :: placed)
termination_by cs => cs.length
decreasing_by
  · simp
  · exact Nat.lt_succ_of_le _h

theorem lexemes_nil (column : Nat) : lexemes column [] = .ok [] := by
  rw [lexemes]

theorem lexemes_gap {c : Char} (h : isGap c = true) (column : Nat) (cs : List Char) :
    lexemes column (c :: cs) = lexemes (column + 1) cs := by
  rw [lexemes, if_pos h]

end NestedQuery
