import NestedQuery.Proofs.Text.Lines
import NestedQuery.Uuid

/-!
# Identifiers are read as they are printed

* `Uuid.hexNumber?_hexDigits`    hexadecimal digits are read as their number;
* `Uuid.ofHyphenated_hyphenated` the groups of 32 digits are put together again;
* `Uuid.ofText_text`             every identifier is read as it is printed.
-/

namespace NestedQuery

namespace Uuid

/-! ## digits -/

theorem hexValue?_digitChar : ∀ d < 16, Text.hexValue? (Nat.digitChar d) = some d := by decide

theorem utf8Size_digitChar : ∀ d < 16, (Nat.digitChar d).utf8Size = 1 := by decide

theorem utf8Size_hexDigits (count n : Nat) : ∀ c ∈ hexDigits count n, c.utf8Size = 1 := by
  induction count generalizing n with
  | zero => exact List.forall_mem_nil _
  | succ count ih =>
    refine List.forall_mem_append.mpr ⟨ih (n / 16), List.forall_mem_singleton.mpr ?_⟩
    exact utf8Size_digitChar _ (Nat.mod_lt n (by decide))

theorem hexNumber?_append (acc : Nat) (cs ds : List Char) :
    hexNumber? acc (cs ++ ds) = (hexNumber? acc cs).bind fun n => hexNumber? n ds := by
  induction cs generalizing acc with
  | nil => rfl
  | cons c cs ih =>
    rw [List.cons_append, hexNumber?, hexNumber?, Option.bind_assoc]
    exact congrArg _ (funext fun v => ih _)

/-- so many digits of a number are read as its remainder -/
theorem hexNumber?_hexDigits (acc count n : Nat) :
    hexNumber? acc (hexDigits count n) = some (16 ^ count * acc + n % 16 ^ count) := by
  induction count generalizing n with
  | zero => rw [hexDigits, hexNumber?, Nat.pow_zero, Nat.one_mul, Nat.mod_one, Nat.add_zero]
  | succ count ih =>
    have hdigit := hexValue?_digitChar _ (Nat.mod_lt n (by decide))
    rw [hexDigits, hexNumber?_append, ih, Option.bind_some, hexNumber?, hdigit, Option.bind_some,
      hexNumber?, Nat.pow_succ', Nat.mod_mul, Nat.mul_add, Nat.mul_assoc]
    congr 1
    omega

/-! ## groups -/

section
variable {digits : List Char}

theorem length_hyphenated (h : digits.length = 32) : (hyphenated digits).length = 36 := by
  simp [hyphenated, h]

theorem utf8Size_hyphenated (h : ∀ c ∈ digits, c.utf8Size = 1) :
    ∀ c ∈ hyphenated digits, c.utf8Size = 1 := by
  have hgroup (start count : Nat) : ∀ c ∈ (digits.drop start).take count, c.utf8Size = 1 :=
    fun c hc => h c (List.mem_of_mem_drop (List.mem_of_mem_take hc))
  simp only [hyphenated, List.forall_mem_append, List.forall_mem_cons]
  exact ⟨⟨⟨⟨hgroup 0 8, rfl, hgroup 8 4⟩, rfl, hgroup 12 4⟩, rfl, hgroup 16 4⟩, rfl,
    fun c hc => h c (List.mem_of_mem_drop hc)⟩

/-- the groups are put together again -/
theorem ofHyphenated_hyphenated (h : digits.length = 32) :
    ofHyphenated (hyphenated digits) = ofDigits digits := by
  have hhyphens : [8, 13, 18, 23].all (fun i => (hyphenated digits)[i]? = some '-') = true := by
    simp [hyphenated, h, List.getElem?_append]
  have hgroup (start count : Nat) :
      (digits.drop start).take count ++ digits.drop (start + count) = digits.drop start := by
    rw [← List.drop_drop, List.take_append_drop]
  rw [ofHyphenated, if_pos ⟨length_hyphenated h, hhyphens⟩]
  congr 1
  calc _ = digits.take 8 ++ ((digits.drop 8).take 4 ++ ((digits.drop 12).take 4 ++
        ((digits.drop 16).take 4 ++ digits.drop 20))) := by
        simp [hyphenated, h, List.drop_append, List.drop_take]
    _ = digits := by
        rw [hgroup 16 4, hgroup 12 4, hgroup 8 4, List.take_append_drop]

end

theorem ofDigits_hexDigits (u : Uuid) : ofDigits (hexDigits 32 u.bits.toNat) = some u := by
  have hbits : u.bits.toNat % 16 ^ 32 = u.bits.toNat := Nat.mod_eq_of_lt u.bits.isLt
  rw [ofDigits, if_pos (length_hexDigits 32 _), hexNumber?_hexDigits, hbits, Nat.mul_zero,
    Nat.zero_add, Option.map_some, BitVec.ofNat_toNat, BitVec.setWidth_eq]

/-- an identifier is read as it is printed -/
theorem ofText_text (u : Uuid) : ofText u.text = .ok u := by
  have hdigits : (hexDigits 32 u.bits.toNat).length = 32 := length_hexDigits 32 _
  have hlength : Text.byteLength u.text = 36 :=
    (Text.byteLength_of_ascii (utf8Size_hyphenated (utf8Size_hexDigits 32 _))).trans
      (length_hyphenated hdigits)
  have hread : ofHyphenated u.text = some u :=
    (ofHyphenated_hyphenated hdigits).trans u.ofDigits_hexDigits
  rw [ofText, hyphenatedPart?, hlength, if_neg (by decide)]
  simp only [hread]

end Uuid

end NestedQuery
