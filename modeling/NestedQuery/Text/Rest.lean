/-!
# What is left of a text

Readers go through a text from its start and answer with what is left of it.  That the rest is
no longer than the text, or shorter, is what their recursion ends by.

* `Rest`, `Shorter`            rests that are no longer, and rests that are shorter;
* `Rest.whole`, `Rest.after`   nothing read, one character read;
* `Rest.dropWhile`             the characters of a class read;
* `Rest.andThen`, `Shorter.andThen`   more read of the rest.
-/

namespace NestedQuery.Text

/-- what is left of a text -/
abbrev Rest (cs : List Char) := { r : List Char // r.length ≤ cs.length }

/-- what is left of a text after at least one character -/
abbrev Shorter (cs : List Char) := { r : List Char // r.length < cs.length }

namespace Rest

def whole (cs : List Char) : Rest cs := ⟨cs, Nat.le_refl _⟩

/-- what is left after the first character -/
def after (c : Char) (cs : List Char) : Rest (c :: cs) := ⟨cs, Nat.le_succ _⟩

def dropWhile (p : Char → Bool) (cs : List Char) : Rest cs :=
  ⟨cs.dropWhile p, (List.dropWhile_sublist p).length_le⟩

/-- what is left when more is read of what is left -/
def andThen {cs : List Char} (r : Rest cs) (s : Rest r.1) : Rest cs :=
  ⟨s.1, Nat.le_trans s.2 r.2⟩

/-- one more character in front -/
def cons (c : Char) {cs : List Char} (r : Rest cs) : Rest (c :: cs) :=
  ⟨r.1, Nat.le_succ_of_le r.2⟩

end Rest

namespace Shorter

/-- what is left after the first character -/
def after (c : Char) (cs : List Char) : Shorter (c :: cs) := ⟨cs, Nat.lt_succ_self _⟩

/-- one more character in front -/
def cons (c : Char) {cs : List Char} (r : Shorter cs) : Shorter (c :: cs) :=
  ⟨r.1, Nat.lt_succ_of_lt r.2⟩

/-- what is left when more is read of what is left -/
def andThen {cs : List Char} (r : Shorter cs) (s : Rest r.1) : Shorter cs :=
  ⟨s.1, Nat.lt_of_le_of_lt s.2 r.2⟩

def toRest {cs : List Char} (r : Shorter cs) : Rest cs := ⟨r.1, Nat.le_of_lt r.2⟩

end Shorter

end NestedQuery.Text
