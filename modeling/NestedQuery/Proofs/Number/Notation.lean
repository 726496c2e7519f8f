import Mathlib.Tactic.FieldSimp
import Mathlib.Tactic.Ring
import NestedQuery.Proofs.Number.Rescaling
import NestedQuery.Proofs.Text.Digits

/-!
# How decimals are written

A decimal is written as a sign, or none, and digits on the two sides of a point, which may be
missing where no digits follow it.  One digit is needed on either side.

* `Decimal.Spells`            the texts of a sign and digits, without white space around them;
* `Decimal.sign_of_spells`, `Decimal.splitPoint_of_spells`   they are taken apart as they were put
                              together;
* `Decimal.written`           the rational number that digits on the two sides of a point stand for;
* `Decimal.ofText_eq_ok_iff_of_spells`   what is read, unless the digits are too large;
* `Decimal.spells_text`       a decimal is printed as such a text;
* `Decimal.ofText_format`     the texts that are read, and that printing is undone by reading.
-/

namespace NestedQuery.Decimal

/-! ## the notation -/

/-- a sign as it may be written; `true` for a minus -/
inductive SignText : List Char → Bool → Prop
  | none : SignText [] false
  | plus : SignText ['+'] false
  | minus : SignText ['-'] true

/-- what may follow the whole part, with the digits of the fraction -/
inductive FractionText : List Char → List Char → Prop
  | none : FractionText [] []
  | point (digits : List Char) : FractionText ('.' :: digits) digits

/-- a text that is made of a sign and of digits before and after a point -/
structure Spells (cs : List Char) (negative : Bool) (whole fraction : List Char) : Prop where
  parts : ∃ signText fractionText, SignText signText negative ∧ FractionText fractionText fraction ∧
    cs = signText ++ (whole ++ fractionText)
  digits : ∀ c ∈ whole ++ fraction, c.isDigit = true
  ne_nil : whole ++ fraction ≠ []

theorem ne_of_isDigit {c d : Char} (hd : d.isDigit = false) (h : c.isDigit = true) : c ≠ d := by
  rintro rfl
  cases hd.symm.trans h

section
variable {cs whole fraction : List Char} {negative : Bool}

/-- the digits after a sign start with a digit or with the point -/
theorem FractionText.head_append {fractionText : List Char}
    (hfraction : FractionText fractionText fraction)
    (hdigits : ∀ c ∈ whole ++ fraction, c.isDigit = true) (hne : whole ++ fraction ≠ []) :
    ∃ c rest, whole ++ fractionText = c :: rest ∧ (c.isDigit = true ∨ c = '.') := by
  cases whole with
  | cons c rest => exact ⟨c, rest ++ fractionText, rfl, .inl (hdigits c List.mem_cons_self)⟩
  | nil =>
    cases hfraction with
    | none => exact absurd rfl hne
    | point digits => exact ⟨'.', fraction, rfl, .inr rfl⟩

theorem sign_of_spells (h : Spells cs negative whole fraction) :
    ∃ fractionText, FractionText fractionText fraction ∧
      Text.sign cs = (negative, whole ++ fractionText) := by
  obtain ⟨signText, fractionText, hsign, hfraction, rfl⟩ := h.parts
  refine ⟨fractionText, hfraction, ?_⟩
  cases hsign with
  | plus => rfl
  | minus => rfl
  | none =>
    obtain ⟨c, rest, hcs, hc⟩ := hfraction.head_append h.digits h.ne_nil
    rw [List.nil_append, hcs]
    unfold Text.sign
    split
    · rename_i heq
      cases heq
      rcases hc with hc | hc <;> cases hc
    · rename_i heq
      cases heq
      rcases hc with hc | hc <;> cases hc
    · rfl

theorem splitPoint_append {fractionText : List Char}
    (hfraction : FractionText fractionText fraction) (hdigits : ∀ c ∈ whole, c.isDigit = true) :
    splitPoint (whole ++ fractionText) = (whole, fraction) := by
  have hwhole : ∀ c ∈ whole, (c != '.') = true := fun c hc =>
    bne_iff_ne.mpr (ne_of_isDigit rfl (hdigits c hc))
  have hstop : ∀ c ∈ fractionText.head?, (c != '.') = false := by
    cases hfraction with
    | none => nofun
    | point digits =>
      intro c hc
      cases hc
      rfl
  rw [splitPoint, Text.takeWhile_append_of_stop hwhole hstop,
    Text.dropWhile_append_of_stop hwhole hstop]
  cases hfraction <;> rfl

theorem areDigits_iff : areDigits whole fraction = true ↔
    whole ++ fraction ≠ [] ∧ ∀ c ∈ whole ++ fraction, c.isDigit = true := by
  rw [areDigits, Bool.and_eq_true, List.all_eq_true, Bool.not_eq_true', List.isEmpty_eq_false_iff]

theorem splitPoint_of_spells (h : Spells cs negative whole fraction) :
    (Text.sign cs).1 = negative ∧ splitPoint (Text.sign cs).2 = (whole, fraction) := by
  obtain ⟨fractionText, hfraction, hsign⟩ := sign_of_spells h
  rw [hsign]
  exact ⟨rfl, splitPoint_append hfraction fun c hc => h.digits c (List.mem_append_left _ hc)⟩

/-- what is taken apart into digits was such a text -/
theorem spells_of_areDigits {rest : List Char} (hsign : Text.sign cs = (negative, rest))
    (hsplit : splitPoint rest = (whole, fraction)) (h : areDigits whole fraction = true) :
    Spells cs negative whole fraction := by
  obtain ⟨hne, hdigits⟩ := areDigits_iff.mp h
  have hparts : ∃ signText, SignText signText negative ∧ cs = signText ++ rest := by
    unfold Text.sign at hsign
    split at hsign <;> cases hsign
    · exact ⟨_, .minus, rfl⟩
    · exact ⟨_, .plus, rfl⟩
    · exact ⟨_, .none, rfl⟩
  have hrest : ∃ fractionText, FractionText fractionText fraction ∧
      rest = whole ++ fractionText := by
    cases hsplit
    refine ⟨rest.dropWhile (· != '.'), ?_, List.takeWhile_append_dropWhile.symm⟩
    cases hdrop : rest.dropWhile (· != '.') with
    | nil => exact .none
    | cons c tail =>
      have hc := List.head_dropWhile_not (· != '.') (hdrop ▸ List.cons_ne_nil c tail)
      simp only [hdrop, List.head_cons, bne_eq_false_iff_eq] at hc
      exact hc ▸ .point tail
  obtain ⟨signText, hsignText, rfl⟩ := hparts
  obtain ⟨fractionText, hfraction, rfl⟩ := hrest
  exact ⟨⟨signText, fractionText, hsignText, hfraction, rfl⟩, hdigits, hne⟩

/-! ## reading -/

theorem ofText_eq_ok_iff_of_spells (h : Spells (Text.trimmed cs) negative whole fraction)
    {d : Decimal} : ofText cs = .ok d ↔ ofParts? negative whole fraction = some d := by
  obtain ⟨hsign, hsplit⟩ := splitPoint_of_spells h
  have hdigits := areDigits_iff.mpr ⟨h.ne_nil, h.digits⟩
  rw [ofText, hsplit, hsign, if_pos hdigits]
  dsimp only
  cases ofParts? negative whole fraction with
  | some d' => rw [Except.ok.injEq, Option.some.injEq]
  | none => exact iff_of_false nofun nofun

/-- whatever is read is such a text -/
theorem spells_of_ofText {d : Decimal} (h : ofText cs = .ok d) :
    ∃ negative whole fraction, Spells (Text.trimmed cs) negative whole fraction ∧
      ofParts? negative whole fraction = some d := by
  rw [ofText] at h
  split at h
  · rename_i hdigits
    refine ⟨_, _, _, spells_of_areDigits rfl rfl hdigits, ?_⟩
    split at h
    · rename_i hparts
      cases h
      exact hparts
    · cases h
  · cases h

theorem exists_ofParts? (negative : Bool)
    (h : Nat.ofDigitChars 10 (whole ++ fraction) 0 ≤ 2 ^ 127 - 1) :
    ∃ d, ofParts? negative whole fraction = some d := by
  unfold ofParts?
  rw [dif_pos (by omega)]
  exact ⟨_, rfl⟩

theorem ofParts?_eq_some_iff {d : Decimal} : ofParts? negative whole fraction = some d ↔
    Nat.ofDigitChars 10 (whole ++ fraction) 0 ≤ 2 ^ 127 - 1 ∧
      d.units = (if negative then -1 else 1) * Nat.ofDigitChars 10 (whole ++ fraction) 0 ∧
      d.scale = fraction.length.toUInt32 := by
  have hsign (n : Nat) : (if negative then -(n : Int) else n) =
      (if negative then -1 else 1) * (n : Int) := by
    cases negative <;> simp
  unfold ofParts?
  dsimp only
  split
  · rename_i hlt
    rw [← hsign, Option.some.injEq]
    constructor
    · rintro rfl
      exact ⟨by omega, rfl, rfl⟩
    · rintro ⟨-, hunits, hscale⟩
      cases d
      cases hunits
      cases hscale
      rfl
  · rename_i hlt
    exact iff_of_false nofun fun h => hlt (by omega)

end

/-! ## the number that is written -/

/-- the digits after a point, of which the first one counts tenths -/
def fractionValue : List Char → ℚ
  | [] => 0
  | c :: rest => ((c.toNat - '0'.toNat : Nat) + fractionValue rest) / 10

/-- the value of the digits before a point and of those after it, with a sign -/
def written (negative : Bool) (whole fraction : List Char) : ℚ :=
  (if negative then -1 else 1) * (Nat.ofDigitChars 10 whole 0 + fractionValue fraction)

/-- each digit after the point makes the number that is read without it ten times larger -/
theorem ofDigitChars_eq_fractionValue (fraction : List Char) (first : Nat) :
    (Nat.ofDigitChars 10 fraction first : ℚ) =
      (first + fractionValue fraction) * 10 ^ fraction.length := by
  induction fraction generalizing first with
  | nil =>
    rw [Nat.ofDigitChars_nil, fractionValue, List.length_nil, pow_zero, mul_one, add_zero]
  | cons c rest ih =>
    rw [Nat.ofDigitChars_cons, ih, fractionValue, List.length_cons, pow_succ]
    push_cast
    field_simp
    ring

theorem number_eq_written {d : Decimal} {negative : Bool} {whole fraction : List Char}
    (hunits : d.units = (if negative then -1 else 1) * Nat.ofDigitChars 10 (whole ++ fraction) 0)
    (hscale : d.scale.toNat = fraction.length) : d.number = written negative whole fraction := by
  have hpos : (10 : ℚ) ^ fraction.length ≠ 0 := pow_ne_zero _ (by decide)
  have hdigits := ofDigitChars_eq_fractionValue fraction (Nat.ofDigitChars 10 whole 0)
  rw [← Nat.ofDigitChars_append] at hdigits
  rw [number, hunits, hscale, written, div_eq_iff hpos, mul_assoc, ← hdigits]
  cases negative <;> simp

/-! ## printing -/

theorem signText_of_units (d : Decimal) :
    SignText (if d.units < 0 then ['-'] else []) (decide (d.units < 0)) := by
  by_cases h : d.units < 0
  · rw [if_pos h, decide_eq_true h]
    exact .minus
  · rw [if_neg h, decide_eq_false h]
    exact .none

/-- a decimal is printed with the digits of its units, as many of them after the point as its scale
says -/
theorem spells_text (d : Decimal) : ∃ whole fraction,
    Spells d.text (decide (d.units < 0)) whole fraction ∧
      Nat.ofDigitChars 10 (whole ++ fraction) 0 = d.units.natAbs ∧
      fraction.length = d.scale.toNat := by
  have hdigits := Text.isDigit_toDigits d.units.natAbs
  have hvalue : Nat.ofDigitChars 10 (Nat.toDigits 10 d.units.natAbs) 0 = d.units.natAbs :=
    Nat.ofDigitChars_ten_toDigits
  by_cases hscale : d.scale.toNat = 0
  · refine ⟨Nat.toDigits 10 d.units.natAbs, [], ⟨⟨_, [], signText_of_units d, .none, ?_⟩, ?_, ?_⟩,
      ?_, hscale.symm⟩
    · rw [text, if_pos hscale, List.append_nil]
    · rw [List.append_nil]
      exact hdigits
    · rw [List.append_nil]
      exact Nat.toDigits_ne_nil
    · rw [List.append_nil, hvalue]
  · let digits := Text.padded (d.scale.toNat + 1) (Nat.toDigits 10 d.units.natAbs)
    have hlength : d.scale.toNat + 1 ≤ digits.length := by
      rw [Text.length_padded]
      exact Nat.le_max_left _ _
    have hall : digits.take (digits.length - d.scale.toNat) ++
        digits.drop (digits.length - d.scale.toNat) = digits := List.take_append_drop _ _
    refine ⟨digits.take (digits.length - d.scale.toNat),
      digits.drop (digits.length - d.scale.toNat),
      ⟨⟨_, _, signText_of_units d, .point _, ?_⟩, ?_, ?_⟩, ?_, ?_⟩
    · rw [text, if_neg hscale, List.append_assoc]
    · rw [hall]
      exact Text.isDigit_padded hdigits
    · rw [hall]
      exact List.ne_nil_of_length_pos (by omega)
    · rw [hall, Text.ofDigitChars_padded, hvalue]
    · rw [List.length_drop]
      omega

/-- such a text has no white space in it -/
theorem Spells.trimmed_eq {cs whole fraction : List Char} {negative : Bool}
    (h : Spells cs negative whole fraction) : Text.trimmed cs = cs := by
  obtain ⟨hwhole, hfractionDigits⟩ := List.forall_mem_append.mp h.digits
  obtain ⟨signText, fractionText, hsign, hfraction, rfl⟩ := h.parts
  have hsignText : ∀ c ∈ signText, Text.isBlank c = false := by
    cases hsign with
    | none => nofun
    | plus => exact List.forall_mem_singleton.mpr rfl
    | minus => exact List.forall_mem_singleton.mpr rfl
  have hfractionText : ∀ c ∈ fractionText, Text.isBlank c = false := by
    cases hfraction with
    | none => nofun
    | point digits =>
      exact List.forall_mem_cons.mpr
        ⟨rfl, fun c hc => Text.isBlank_of_isDigit (hfractionDigits c hc)⟩
  exact Text.trimmed_of_not_blank (List.forall_mem_append.mpr ⟨hsignText,
    List.forall_mem_append.mpr ⟨fun c hc => Text.isBlank_of_isDigit (hwhole c hc), hfractionText⟩⟩)

theorem ofText_text {d : Decimal} (hunits : d.units ≠ -2 ^ 127) : ofText d.text = .ok d := by
  obtain ⟨whole, fraction, hspells, hvalue, hlength⟩ := spells_text d
  have hspells' : Spells (Text.trimmed d.text) (decide (d.units < 0)) whole fraction :=
    hspells.trimmed_eq.symm ▸ hspells
  have hparts : ofParts? (decide (d.units < 0)) whole fraction = some d := by
    have hfits := d.fits
    unfold Fits128 at hfits
    refine ofParts?_eq_some_iff.mpr ⟨by omega, ?_, ?_⟩
    · rw [hvalue]
      by_cases hneg : d.units < 0
      · rw [decide_eq_true hneg, if_pos rfl]
        omega
      · rw [decide_eq_false hneg, if_neg Bool.false_ne_true]
        omega
    · rw [hlength]
      exact (UInt32.ofNat_toNat).symm
  exact (ofText_eq_ok_iff_of_spells hspells').mpr hparts

/-! ## the format -/

theorem length_trimmed_le (cs : List Char) : (Text.trimmed cs).length ≤ cs.length := by
  have hend : (Text.trimmedEnd (Text.skipBlanks cs)).length ≤ (Text.skipBlanks cs).length := by
    rw [Text.trimmedEnd, List.length_reverse]
    exact Nat.le_trans (List.dropWhile_sublist _).length_le (Nat.le_of_eq List.length_reverse)
  exact Nat.le_trans hend (Text.length_skipBlanks_le cs)

theorem Spells.length_fraction_le {cs whole fraction : List Char} {negative : Bool}
    (h : Spells cs negative whole fraction) : fraction.length ≤ cs.length := by
  obtain ⟨signText, fractionText, -, hfraction, rfl⟩ := h.parts
  cases hfraction <;> simp only [List.length_append, List.length_cons, List.length_nil] <;> omega

/-- a text of fewer than `2 ^ 32` characters is a decimal exactly if, without the white space around
it, it is a sign or none and digits with at most one point, one digit at least, and its digits make
a number below `2 ^ 127`.  Its scale is the number of digits after the point, and its units are the
number of all digits with the sign, so that it stands for the number that is written.  A decimal
that is printed is read with the same units and the same scale, except for the least units. -/
theorem ofText_format {cs : List Char} (hlength : cs.length < 2 ^ 32) :
    ((∃ d, ofText cs = .ok d) ↔ ∃ negative whole fraction,
      Spells (Text.trimmed cs) negative whole fraction ∧
        Nat.ofDigitChars 10 (whole ++ fraction) 0 ≤ 2 ^ 127 - 1) ∧
    (∀ d negative whole fraction, ofText cs = .ok d →
      Spells (Text.trimmed cs) negative whole fraction →
        d.scale.toNat = fraction.length ∧
        d.units = (if negative then -1 else 1) * Nat.ofDigitChars 10 (whole ++ fraction) 0 ∧
        d.number = written negative whole fraction) ∧
    ∀ d : Decimal, d.units ≠ -2 ^ 127 → d.scale.toNat < 65535 → ofText d.text = .ok d := by
  refine ⟨⟨?_, ?_⟩, fun d negative whole fraction hd hspells => ?_, fun d hunits _ =>
    ofText_text hunits⟩
  · rintro ⟨d, hd⟩
    obtain ⟨negative, whole, fraction, hspells, hparts⟩ := spells_of_ofText hd
    exact ⟨negative, whole, fraction, hspells, (ofParts?_eq_some_iff.mp hparts).1⟩
  · rintro ⟨negative, whole, fraction, hspells, hvalue⟩
    obtain ⟨d, hd⟩ := exists_ofParts? negative hvalue
    exact ⟨d, (ofText_eq_ok_iff_of_spells hspells).mpr hd⟩
  · obtain ⟨-, hunits, hscale⟩ :=
      ofParts?_eq_some_iff.mp ((ofText_eq_ok_iff_of_spells hspells).mp hd)
    have hfraction : fraction.length < 2 ^ 32 :=
      Nat.lt_of_le_of_lt (Nat.le_trans hspells.length_fraction_le (length_trimmed_le cs)) hlength
    have hscale : d.scale.toNat = fraction.length := by
      rw [hscale]
      exact UInt32.toNat_ofNat_of_lt' hfraction
    exact ⟨hscale, hunits, number_eq_written hunits hscale⟩

/-! ## a loss -/

def lossText : List Char := "\t-12.045 ".toList

theorem spells_lossText : Spells (Text.trimmed lossText) true ['1', '2'] ['0', '4', '5'] := by
  have htrimmed : Text.trimmed lossText = ['-'] ++ (['1', '2'] ++ '.' :: ['0', '4', '5']) := by cbv
  have hdigits : areDigits ['1', '2'] ['0', '4', '5'] = true := by cbv
  obtain ⟨hne, hall⟩ := areDigits_iff.mp hdigits
  exact ⟨⟨_, _, .minus, .point _, htrimmed⟩, hall, hne⟩

/-- less than one in magnitude, and with a zero after the point -/
def pennies : Decimal := ⟨-5, 2, by decide⟩

theorem ofText_format_loss :
    lossText.length < 2 ^ 32 ∧ Spells (Text.trimmed lossText) true ['1', '2'] ['0', '4', '5'] ∧
      (∃ d, ofText lossText = .ok d ∧ d.scale.toNat = 3 ∧ d.units = -12045 ∧
        d.number = written true ['1', '2'] ['0', '4', '5']) ∧
      ofText pennies.text = .ok pennies := by
  have hlength : lossText.length < 2 ^ 32 := by decide
  obtain ⟨hiff, hread, hprint⟩ := ofText_format hlength
  have hvalue : Nat.ofDigitChars 10 (['1', '2'] ++ ['0', '4', '5']) 0 = 12045 := by cbv
  obtain ⟨d, hd⟩ := hiff.mpr ⟨_, _, _, spells_lossText, by omega⟩
  obtain ⟨hscale, hunits, hnumber⟩ := hread d _ _ _ hd spells_lossText
  rw [hvalue] at hunits
  exact ⟨hlength, spells_lossText, ⟨d, hd, hscale, hunits, hnumber⟩,
    hprint pennies (by decide) (by decide)⟩

end NestedQuery.Decimal
