import NestedQuery.Text.Hidden

/-!
# Quoted strings in messages

A string in double quotes, in which every character can be told from every other: quotes and
backslashes are escaped, and so are characters that cannot be seen.

* `quotedChar`    one character inside of the quotes;
* `quoted`        the quoted string.
-/

namespace NestedQuery.Text

/-- a code point by its number -/
def numberedChar (c : Char) : List Char :=
  "\\u\x7b".toList ++ Nat.toDigits 16 c.toNat ++ ['}']

def quotedChar (c : Char) : List Char :=
  match c with
  | '"' => ['\\', '"']
  | '\\' => ['\\', '\\']
  | '\n' => ['\\', 'n']
  | '\r' => ['\\', 'r']
  | '\t' => ['\\', 't']
  | '\x00' => ['\\', '0']
  | c =>
    if c.toNat < 0x20 ∨ c.toNat = 0x7F then numberedChar c
    else if 0x80 ≤ c.toNat ∧ isHidden c then numberedChar c
    else [c]

def quoted (s : String) : String := String.ofList ('"' :: s.toList.flatMap quotedChar ++ ['"'])

end NestedQuery.Text
