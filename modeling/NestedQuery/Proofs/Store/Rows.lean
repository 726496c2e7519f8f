import NestedQuery.Proofs.Outcome
import NestedQuery.Proofs.Schema.Variants
import NestedQuery.Store.Basic

/-!
# Rows of a model and rows that are joined

* `Store.rows`            the rows that a scan of a model answers with;
* `Store.joined`          those whose remote column equals the local column of a row;
* `Store.scan_eq`, `Store.related_eq`   the store answers with them;
* `Store.nodup_rows`      a scan answers with each row once.
-/

namespace NestedQuery

/-! ## nulls -/

theorem Value.compare?_null_right (a : Value) : a.compare? .null = none := by
  unfold Value.compare?
  cases a.underlying <;> rfl

theorem Value.isNull_iff {v : Value} : v.isNull = true ↔ v = .null := by
  cases v <;> simp [isNull]

namespace Store

/-- the rows of a model and its variants -/
def rows (st : Store) (model : String) : List StoredRow :=
  ((st.schema.variantsOf? model).getD []).flatMap st.rowsOf

/-- the rows of a block's model whose remote column equals the local column of a row -/
def joined (st : Store) (r : Relationship) (model : String) (own : StoredRow) : List StoredRow :=
  (st.rows model).filter (matching r.remoteColumn (own.value r.localColumn))

theorem mem_joined_iff {st : Store} {r : Relationship} {model : String} {own row : StoredRow} :
    row ∈ st.joined r model own ↔ row ∈ st.rows model ∧
      (row.value r.remoteColumn).compare? (own.value r.localColumn) = some .eq := by
  rw [joined, List.mem_filter, matching, beq_iff_eq]

theorem scan_eq {st : Store} {n : String} {m : Model} (hm : st.schema.model? n = some m) :
    st.scan n = .ok (st.rows n) := by
  rw [scan, Schema.variantsOf, rows, Schema.variantsOf?, hm]
  rfl

/-- nothing equals a null, so that the rows need not be looked at -/
theorem related_eq {st : Store} {r : Relationship} {n : String} {m : Model} {own : StoredRow}
    (hm : st.schema.model? n = some m) :
    st.related n r.remoteColumn (own.value r.localColumn) = .ok (st.joined r n own) := by
  unfold related joined
  rw [scan_eq hm]
  cases hnull : (own.value r.localColumn).isNull with
  | false => rfl
  | true =>
    rw [if_pos rfl, Value.isNull_iff.mp hnull]
    refine congrArg Except.ok (List.filter_eq_nil_iff.mpr fun row _ => ?_).symm
    rw [matching, Value.compare?_null_right]
    decide

/-! ## rows with their places -/

theorem mem_stored {model : String} {place : Nat} {table : List Row} {r : StoredRow}
    (h : r ∈ stored model place table) : r.model = model ∧ place ≤ r.place := by
  induction table generalizing place with
  | nil => cases h
  | cons row rest ih =>
    rcases List.mem_cons.mp h with rfl | h
    · exact ⟨rfl, Nat.le_refl _⟩
    · exact ⟨(ih h).1, Nat.le_of_succ_le (ih h).2⟩

theorem nodup_stored (model : String) (place : Nat) (table : List Row) :
    (stored model place table).Nodup := by
  induction table generalizing place with
  | nil => exact List.nodup_nil
  | cons row rest ih =>
    refine List.nodup_cons.mpr ⟨fun h => ?_, ih (place + 1)⟩
    exact Nat.not_succ_le_self place (mem_stored h).2

/-- a row is known by its model and its place -/
theorem eq_of_mem_stored {model : String} {place : Nat} {table : List Row} {r r' : StoredRow}
    (h : r ∈ stored model place table) (h' : r' ∈ stored model place table)
    (he : r.place = r'.place) : r = r' := by
  induction table generalizing place with
  | nil => cases h
  | cons row rest ih =>
    rcases List.mem_cons.mp h with rfl | h
    · rcases List.mem_cons.mp h' with rfl | h'
      · rfl
      · exact absurd (mem_stored h').2 (by rw [← he]; exact Nat.not_succ_le_self place)
    · rcases List.mem_cons.mp h' with rfl | h'
      · exact absurd (mem_stored h).2 (by rw [he]; exact Nat.not_succ_le_self place)
      · exact ih h h'

/-- a scanned row is one of those that were inserted into its own model -/
theorem mem_rowsOf_of_mem_rows {st : Store} {n : String} {r : StoredRow} (h : r ∈ st.rows n) :
    r ∈ st.rowsOf r.model := by
  obtain ⟨v, -, hr⟩ := List.mem_flatMap.mp h
  exact (mem_stored hr).1 ▸ hr

section
variable {st : Store} (hs : st.schema.Sound)
include hs

theorem isVariantOf_of_mem_rows {n : String} {r : StoredRow} (h : r ∈ st.rows n) :
    st.schema.isVariantOf r.model n = true := by
  obtain ⟨v, hv, hr⟩ := List.mem_flatMap.mp h
  cases hnames : st.schema.variantsOf? n with
  | none =>
    rw [hnames] at hv
    cases hv
  | some names =>
    rw [hnames] at hv
    rw [(mem_stored hr).1]
    exact hs.isVariantOf_of_mem hnames hv

theorem model?_of_mem_rows {n : String} {r : StoredRow} (h : r ∈ st.rows n) :
    ∃ m, st.schema.model? r.model = some m := by
  obtain ⟨m, hm, -⟩ := Schema.isVariantOf_iff.mp (isVariantOf_of_mem_rows hs h)
  exact ⟨m, hm⟩

theorem nodup_rows (n : String) : (st.rows n).Nodup := by
  rw [rows]
  cases hnames : st.schema.variantsOf? n with
  | none => exact List.nodup_nil
  | some names =>
    refine List.nodup_flatMap.mpr ⟨fun v _ => nodup_stored v 0 _, ?_⟩
    refine (hs.nodup_variantsOf? hnames).imp fun {a b} hab r hra hrb => hab ?_
    rw [← (mem_stored hra).1, (mem_stored hrb).1]

theorem nodup_joined (r : Relationship) (n : String) (own : StoredRow) :
    (st.joined r n own).Nodup := (nodup_rows hs n).filter _

end

/-- two scanned rows of one model and one place are one row -/
theorem eq_of_mem_rows {st : Store} {n : String} {r r' : StoredRow} (h : r ∈ st.rows n)
    (h' : r' ∈ st.rows n) (hm : r.model = r'.model) (hp : r.place = r'.place) : r = r' := by
  obtain ⟨v, -, hr⟩ := List.mem_flatMap.mp h
  obtain ⟨v', -, hr'⟩ := List.mem_flatMap.mp h'
  have hv : v = v' := by rw [← (mem_stored hr).1, hm, (mem_stored hr').1]
  subst hv
  exact eq_of_mem_stored hr hr' hp

end Store

end NestedQuery
