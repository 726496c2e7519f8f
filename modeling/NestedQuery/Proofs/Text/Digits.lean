import NestedQuery.Proofs.Text.Lines
import NestedQuery.Text.Digits

/-!
# Digits as they are written

* `isBlank_of_isDigit`    digits are no white space;
* `ofDigitChars_padded`   zeros in front do not change a number.
-/

namespace NestedQuery.Text

theorem toNat_of_isDigit {c : Char} (h : c.isDigit = true) : 48 ≤ c.toNat ∧ c.toNat ≤ 57 := by
  simp only [Char.isDigit, Bool.and_eq_true, decide_eq_true_eq, UInt32.le_iff_toNat_le] at h
  exact h

theorem isBlank_of_isDigit {c : Char} (h : c.isDigit = true) : isBlank c = false := by
  have hdigit := toNat_of_isDigit h
  rw [Bool.eq_false_iff]
  intro hblank
  simp only [isBlank, blankRanges, inRanges_cons, inRanges_nil, Bool.or_eq_true, Bool.and_eq_true,
    decide_eq_true_eq, Bool.false_eq_true, or_false] at hblank
  omega

theorem isDigit_toDigits (n : Nat) : ∀ c ∈ Nat.toDigits 10 n, c.isDigit = true :=
  fun _ hc => Nat.isDigit_of_mem_toDigits (by decide) (by decide) hc

theorem isDigit_padded {width : Nat} {digits : List Char} (h : ∀ c ∈ digits, c.isDigit = true) :
    ∀ c ∈ padded width digits, c.isDigit = true :=
  List.forall_mem_append.mpr ⟨fun _ hc => List.eq_of_mem_replicate hc ▸ rfl, h⟩

theorem ofDigitChars_padded (width : Nat) (digits : List Char) :
    Nat.ofDigitChars 10 (padded width digits) 0 = Nat.ofDigitChars 10 digits 0 := by
  rw [padded, Nat.ofDigitChars_append, Nat.ofDigitChars_replicate_zero, Nat.mul_zero]

end NestedQuery.Text
