import NestedQuery.Text.Blank

/-!
# Lines of a text

A text is cut at every newline.  Each line counts from one and is read without the white space
around it, which includes the carriage return before a newline; blank lines keep their number
and are left out.

* `splitLines`      the pieces between the newlines;
* `numberedLines`   the lines that are not blank, trimmed, with their numbers.
-/

namespace NestedQuery.Text

/-- the pieces of a text between its newlines; there is always at least one -/
def splitLines : List Char → List (List Char)
  | [] => [[]]
  | c :: cs =>
    if c = '\n' then [] :: splitLines cs
    else
      match splitLines cs with
      | [] => [[c]]
      | line :: rest => (c :: line) :: rest

theorem splitLines_nil : splitLines [] = [[]] := rfl

theorem splitLines_newline (cs : List Char) : splitLines ('\n' :: cs) = [] :: splitLines cs := rfl

theorem splitLines_ne_nil (cs : List Char) : splitLines cs ≠ [] := by
  cases cs with
  | nil => exact List.cons_ne_nil _ _
  | cons c cs =>
    unfold splitLines
    split
    · exact List.cons_ne_nil _ _
    · split <;> exact List.cons_ne_nil _ _

/-- the pieces of a list of lines, each with its number, that are not blank -/
def numberFrom (first : Nat) : List (List Char) → List (Nat × List Char)
  | [] => []
  | line :: rest =>
    match trimmed line with
    | [] => numberFrom (first + 1) rest
    | c :: cs => (first, c :: cs) :: numberFrom (first + 1) rest

/-- the lines that are not blank, trimmed, counted from one -/
def numberedLines (cs : List Char) : List (Nat × List Char) := numberFrom 1 (splitLines cs)

theorem numberFrom_nil (first : Nat) : numberFrom first [] = [] := rfl

/-- the number of bytes of a text in UTF-8 -/
def byteLength : List Char → Nat
  | [] => 0
  | c :: cs => c.utf8Size + byteLength cs

theorem byteLength_nil : byteLength [] = 0 := rfl

theorem byteLength_cons (c : Char) (cs : List Char) :
    byteLength (c :: cs) = c.utf8Size + byteLength cs := rfl

theorem byteLength_append (a b : List Char) :
    byteLength (a ++ b) = byteLength a + byteLength b := by
  induction a with
  | nil => rw [List.nil_append, byteLength_nil, Nat.zero_add]
  | cons c a ih => rw [List.cons_append, byteLength_cons, byteLength_cons, ih, Nat.add_assoc]

end NestedQuery.Text
