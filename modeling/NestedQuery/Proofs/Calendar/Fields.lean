import NestedQuery.Calendar.Timestamp
import NestedQuery.Proofs.Text.Digits

/-!
# Calendar fields as they are written

The readers of fields go over digits up to the first other character.  A field that is printed with
a fixed number of digits is read as it was.

* `Calendar.number_padded`    the digits before something else are read as their number;
* `Calendar.field_padded`     a field of two digits is read between its bounds;
* `Calendar.fraction_padded`  digits after a point are read as billionths;
* `Timestamp.exactly?_padded` a field of a fixed number of digits.
-/

namespace NestedQuery

namespace Calendar

/-! ## printed fields -/

theorem isDigit_padded (width n : Nat) : ∀ c ∈ padded width n, c.isDigit = true :=
  Text.isDigit_padded (Text.isDigit_toDigits n)

theorem ofDigitChars_padded (width n : Nat) : Nat.ofDigitChars 10 (padded width n) 0 = n := by
  rw [padded, Text.ofDigitChars_padded, Nat.ofDigitChars_ten_toDigits]

theorem length_padded {width n : Nat} (hwidth : 0 < width) (h : n < 10 ^ width) :
    (padded width n).length = width := by
  have hdigits := (Nat.length_toDigits_le_iff (by decide) hwidth).mpr h
  rw [padded, Text.length_padded, Nat.max_eq_left hdigits]

/-- a printed field starts with a digit -/
theorem exists_padded_cons (width n : Nat) :
    ∃ c cs, padded width n = c :: cs ∧ c.isDigit = true := by
  have hne : padded width n ≠ [] := List.append_ne_nil_of_right_ne_nil _ Nat.toDigits_ne_nil
  obtain ⟨c, cs, hcs⟩ := List.exists_cons_of_ne_nil hne
  exact ⟨c, cs, hcs, isDigit_padded width n c (hcs ▸ List.mem_cons_self)⟩

theorem skipBlanks_padded (width n : Nat) (rest : List Char) :
    Text.skipBlanks (padded width n ++ rest) = padded width n ++ rest := by
  obtain ⟨c, cs, hcs, hc⟩ := exists_padded_cons width n
  rw [hcs, List.cons_append, Text.skipBlanks_of_not_blank (Text.isBlank_of_isDigit hc)]

/-! ## reading them -/

section
variable {most : Option Nat} {width n : Nat} {ds rest : List Char}

/-- digits before something that is none, no more than may be read -/
theorem digits_append (hds : ∀ c ∈ ds, c.isDigit = true)
    (hmost : ∀ count, most = some count → ds.length ≤ count)
    (hrest : ∀ c ∈ rest.head?, c.isDigit = false) : digits most (ds ++ rest) = ds := by
  cases most with
  | none => exact Text.takeWhile_append_of_stop hds hrest
  | some count =>
    have hstop : ∀ c ∈ (rest.take (count - ds.length)).head?, c.isDigit = false := by
      intro c hc
      rw [List.head?_take] at hc
      split at hc
      · cases hc
      · exact hrest c hc
    rw [digits, List.take_append, List.take_of_length_le (hmost count rfl)]
    exact Text.takeWhile_append_of_stop hds hstop

theorem number_padded (hmost : ∀ count, most = some count → (padded width n).length ≤ count)
    (hn : n < 0x8000000000000000) (hrest : ∀ c ∈ rest.head?, c.isDigit = false) :
    number most (padded width n ++ rest) = .ok (n, rest) := by
  have hne : (padded width n).isEmpty = false := by
    obtain ⟨c, cs, hcs, -⟩ := exists_padded_cons width n
    rw [hcs]
    rfl
  rw [number, digits_append (isDigit_padded width n) hmost hrest, ofDigitChars_padded, hne,
    if_pos hn, List.drop_left]
  rfl

/-- a number that is printed with no more digits than may be read -/
theorem number_some_padded {count : Nat} (hwidth : 0 < width) (hle : width ≤ count)
    (hn : n < 10 ^ width) (hbits : n < 0x8000000000000000)
    (hrest : ∀ c ∈ rest.head?, c.isDigit = false) :
    number (some count) (padded width n ++ rest) = .ok (n, rest) := by
  refine number_padded (fun most hmost => ?_) hbits hrest
  cases hmost
  exact (length_padded hwidth hn).trans_le hle

theorem field_padded {least greatest : Nat} (hlow : least ≤ n) (hhigh : n ≤ greatest)
    (hn : n < 100) (hrest : ∀ c ∈ rest.head?, c.isDigit = false) :
    field least greatest (padded 2 n ++ rest) = .ok (n, rest) := by
  rw [field, skipBlanks_padded, number_some_padded (by decide) (Nat.le_refl 2) hn (by omega) hrest]
  exact if_pos ⟨hlow, hhigh⟩

/-- a character that is no digit ends a field -/
theorem head_not_digit (c : Char) (h : c.isDigit = false) (cs : List Char) :
    ∀ d ∈ (c :: cs).head?, d.isDigit = false := by
  intro d hd
  cases hd
  exact h

theorem literal_cons (c : Char) (rest : List Char) : literal c (c :: rest) = .ok ((), rest) :=
  if_pos rfl

/-- as many places as are written, and zeros for the others up to the ninth -/
theorem fraction_padded (hwidth : 0 < width) (hle : width ≤ 9) (hn : n < 10 ^ width)
    (hrest : ∀ c ∈ rest.head?, c.isDigit = false) :
    fraction (padded width n ++ rest) = .ok (n * tenPow (9 - width), rest) := by
  have hlength := length_padded hwidth hn
  have hpow : (10 : Nat) ^ width ≤ 10 ^ 9 := Nat.pow_le_pow_right (by decide) hle
  have hnumber : number (some 9) (padded width n ++ rest) = .ok (n, rest) :=
    number_some_padded hwidth hle hn (by omega) hrest
  have hdrop : ([] ++ rest).dropWhile Char.isDigit = rest :=
    Text.dropWhile_append_of_stop nofun hrest
  rw [List.nil_append] at hdrop
  rw [fraction, hnumber]
  dsimp only
  rw [hdrop, List.length_append, hlength, Nat.add_sub_cancel]

end

end Calendar

/-! ## fields of a fixed number of digits -/

theorem Timestamp.exactly?_padded {width n : Nat} (hwidth : 0 < width) (hn : n < 10 ^ width)
    (rest : List Char) :
    exactly? width (Calendar.padded width n ++ rest) = some (n, rest) := by
  have hlength := Calendar.length_padded hwidth hn
  have hall : (Calendar.padded width n).all Char.isDigit = true :=
    List.all_eq_true.mpr (Calendar.isDigit_padded width n)
  rw [exactly?, List.take_left' hlength, List.drop_left' hlength, if_pos ⟨hlength, hall⟩,
    Calendar.ofDigitChars_padded]

end NestedQuery
