import NestedQuery.Text.Lines

/-!
# Columns and offsets

A column of a text counts the characters before it, an offset counts their bytes in UTF-8.  An
offset inside of a character has no column.

* `columnAt?`                the column at an offset;
* `columnAt?_eq_some_iff`    it is there where the text can be cut;
* `exists_columnAt?_iff`     which is at the boundaries of characters.
-/

namespace NestedQuery.Text

/-- the number of characters before an offset, unless a character goes across it or the text ends
before it -/
def columnAt? : List Char → Nat → Option Nat
  | _, 0 => some 0
  | [], _ + 1 => none
  | c :: cs, offset + 1 =>
    if c.utf8Size ≤ offset + 1 then (columnAt? cs (offset + 1 - c.utf8Size)).map (· + 1) else none

theorem columnAt?_zero (cs : List Char) : columnAt? cs 0 = some 0 := by
  cases cs <;> rfl

theorem columnAt?_byteLength (before after : List Char) :
    columnAt? (before ++ after) (byteLength before) = some before.length := by
  induction before with
  | nil => exact columnAt?_zero after
  | cons c before ih =>
    obtain ⟨offset, hoffset⟩ := Nat.exists_eq_succ_of_ne_zero
      (Nat.ne_of_gt (Nat.add_pos_left c.utf8Size_pos (byteLength before)))
    rw [byteLength_cons, hoffset, List.cons_append, columnAt?, ← Nat.succ_eq_add_one, ← hoffset,
      if_pos (Nat.le_add_right _ _), Nat.add_sub_cancel_left, ih]
    rfl

theorem columnAt?_eq_some_iff {cs : List Char} {offset column : Nat} :
    columnAt? cs offset = some column ↔
      ∃ before after, cs = before ++ after ∧ byteLength before = offset ∧
        before.length = column := by
  constructor
  · intro h
    induction cs generalizing offset column with
    | nil =>
      cases offset with
      | zero =>
        cases h
        exact ⟨[], [], rfl, rfl, rfl⟩
      | succ offset => cases h
    | cons c cs ih =>
      cases offset with
      | zero =>
        cases h
        exact ⟨[], c :: cs, rfl, rfl, rfl⟩
      | succ offset =>
        rw [columnAt?] at h
        split at h
        · rename_i hc
          obtain ⟨column, hcolumn, rfl⟩ := Option.map_eq_some_iff.mp h
          obtain ⟨before, after, rfl, hoffset, rfl⟩ := ih hcolumn
          refine ⟨c :: before, after, rfl, ?_, rfl⟩
          rw [byteLength_cons, hoffset, Nat.add_sub_cancel' hc]
        · cases h
  · rintro ⟨before, after, rfl, rfl, rfl⟩
    exact columnAt?_byteLength before after

example : columnAt? ['ß', '['] 1 = none ∧ columnAt? ['ß', '['] 2 = some 1 := by decide

/-- the bytes of a text before a column -/
def offsetOf (cs : List Char) (column : Nat) : Nat := byteLength (cs.take column)

theorem offsetOf_length (before after : List Char) :
    offsetOf (before ++ after) before.length = byteLength before := by
  rw [offsetOf, List.take_left]

/-! ## boundaries of characters -/

theorem byteLength_toList (s : String) : byteLength s.toList = s.utf8ByteSize := by
  have hofList (cs : List Char) : byteLength cs = (String.ofList cs).utf8ByteSize := by
    induction cs with
    | nil => rfl
    | cons c cs ih =>
      rw [byteLength_cons, ih, String.ofList_cons, String.utf8ByteSize_append,
        String.utf8ByteSize_singleton]
  rw [hofList, String.ofList_toList]

/-- the offsets that have a column are the positions of a string -/
theorem exists_columnAt?_iff {s : String} {offset : Nat} :
    (∃ column, columnAt? s.toList offset = some column) ↔
      (⟨offset⟩ : String.Pos.Raw).IsValid s := by
  rw [String.Pos.Raw.isValid_iff_exists_append]
  constructor
  · rintro ⟨column, h⟩
    obtain ⟨before, after, hs, rfl, -⟩ := columnAt?_eq_some_iff.mp h
    refine ⟨String.ofList before, String.ofList after, ?_, ?_⟩
    · rw [← String.ofList_append, ← hs, String.ofList_toList]
    · rw [String.rawEndPos, ← byteLength_toList, String.toList_ofList]
  · rintro ⟨a, b, rfl, hoffset⟩
    have hbytes : offset = byteLength a.toList :=
      (congrArg String.Pos.Raw.byteIdx hoffset).trans (byteLength_toList a).symm
    rw [hbytes, String.toList_append]
    exact ⟨_, columnAt?_byteLength a.toList b.toList⟩

end NestedQuery.Text
