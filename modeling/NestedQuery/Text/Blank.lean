import NestedQuery.Text.Ranges

/-!
# White space

The property `White_Space` of Unicode, and texts without the white space around them.

* `isBlank`     the characters of the property;
* `trimmed`     a text less its leading and trailing white space.
-/

namespace NestedQuery.Text

/-- the code points of the property `White_Space` -/
def blankRanges : List (Nat × Nat) :=
  [(0x9, 0xD), (0x20, 0x20), (0x85, 0x85), (0xA0, 0xA0), (0x1680, 0x1680), (0x2000, 0x200A),
   (0x2028, 0x2029), (0x202F, 0x202F), (0x205F, 0x205F), (0x3000, 0x3000)]

def isBlank (c : Char) : Bool := inRanges blankRanges c.toNat

def skipBlanks (cs : List Char) : List Char := cs.dropWhile isBlank

def trimmedEnd (cs : List Char) : List Char := (cs.reverse.dropWhile isBlank).reverse

/-- the text without the white space at its two ends -/
def trimmed (cs : List Char) : List Char := trimmedEnd (skipBlanks cs)

theorem skipBlanks_nil : skipBlanks [] = [] := rfl

theorem skipBlanks_cons (c : Char) (cs : List Char) :
    skipBlanks (c :: cs) = if isBlank c then skipBlanks cs else c :: cs := by
  unfold skipBlanks
  rw [List.dropWhile_cons]

theorem length_skipBlanks_le (cs : List Char) : (skipBlanks cs).length ≤ cs.length :=
  (List.dropWhile_sublist isBlank).length_le

end NestedQuery.Text
