import Mathlib.Data.List.Induction
import Mathlib.Data.List.Nodup

/-!
# Lists that grow at their end

What one more element does to a list, and which elements `filter` and `eraseDups` keep.

* `exists_mem_concat_iff`        some element of a list with one more;
* `filter_flatMap_of_agree`      a test with one outcome for all that comes of an element;
* `eraseDups_concat`             the first occurrences in a list with one more;
* `eraseDups_map_flatMap`        equal elements in a row count once;
* `length_eraseDups_eq_iff`      only a list without duplicates keeps all elements.
-/

namespace NestedQuery

universe u v w
variable {α : Type u}

theorem exists_mem_concat_iff {xs : List α} {y : α} {P : α → Prop} :
    (∃ x ∈ xs ++ [y], P x) ↔ (∃ x ∈ xs, P x) ∨ P y := by
  simp only [List.mem_append, List.mem_singleton, or_and_right, exists_or, exists_eq_left]

theorem forall_mem_concat_iff {xs : List α} {y : α} {P : α → Prop} :
    (∀ x ∈ xs ++ [y], P x) ↔ (∀ x ∈ xs, P x) ∧ P y := by
  rw [List.forall_mem_append, List.forall_mem_singleton]

/-- where a test has one outcome for all that comes of an element, it tests the element -/
theorem filter_flatMap_of_agree {β : Type v} {f : α → List β} {p : β → Bool} {q : α → Bool}
    {xs : List α} (h : ∀ x ∈ xs, ∀ y ∈ f x, p y = q x) :
    (xs.flatMap f).filter p = (xs.filter q).flatMap f := by
  induction xs with
  | nil => rfl
  | cons x rest ih =>
    obtain ⟨hx, hrest⟩ := List.forall_mem_cons.mp h
    rw [List.flatMap_cons, List.filter_append, ih hrest, List.filter_congr hx, List.filter_cons]
    cases q x with
    | true => rw [List.filter_true, if_pos rfl, List.flatMap_cons]
    | false => rw [List.filter_false, if_neg Bool.false_ne_true, List.nil_append]

/-! ## first occurrences -/

section
variable [BEq α] [LawfulBEq α]

theorem eraseDups_concat (xs : List α) (x : α) :
    (xs ++ [x]).eraseDups = if x ∈ xs then xs.eraseDups else xs.eraseDups ++ [x] := by
  rw [List.eraseDups_append, List.removeAll, List.filter_singleton]
  by_cases hx : x ∈ xs
  · rw [if_pos hx, List.elem_eq_true_of_mem hx]
    exact List.append_nil _
  · rw [if_neg hx, Bool.eq_false_iff.mpr (mt List.elem_iff.mp hx)]
    rfl

theorem nodup_eraseDups (xs : List α) : xs.eraseDups.Nodup := by
  induction xs using List.reverseRecOn with
  | nil => exact List.nodup_nil
  | append_singleton xs x ih =>
    rw [eraseDups_concat]
    split
    · exact ih
    · rename_i hx
      rw [← List.concat_eq_append]
      exact ih.concat (mt List.mem_eraseDups.mp hx)

theorem eraseDups_concat_congr {xs ys : List α} (h : xs.eraseDups = ys.eraseDups) (z : α) :
    (xs ++ [z]).eraseDups = (ys ++ [z]).eraseDups := by
  have hmem : z ∈ xs ↔ z ∈ ys := by rw [← List.mem_eraseDups, h, List.mem_eraseDups]
  rw [eraseDups_concat, eraseDups_concat, h]
  exact if_congr hmem rfl rfl

/-- of many equal elements the first counts -/
theorem eraseDups_append_same {z : α} {zs : List α} (hne : zs ≠ []) (hz : ∀ x ∈ zs, x = z)
    (xs : List α) : (xs ++ zs).eraseDups = (xs ++ [z]).eraseDups := by
  induction zs generalizing xs with
  | nil => exact absurd rfl hne
  | cons x rest ih =>
    obtain ⟨rfl, hrest⟩ := List.forall_mem_cons.mp hz
    cases rest with
    | nil => rfl
    | cons y rest =>
      have hmem : x ∈ xs ++ [x] := List.mem_append_right _ (List.mem_singleton_self x)
      rw [List.append_cons, ih (List.cons_ne_nil _ _) hrest, eraseDups_concat, if_pos hmem]

/-- a list of equal elements for each element of another list -/
theorem eraseDups_map_flatMap {β : Type v} {γ : Type w} {G : β → List γ} {f : γ → α} {g : β → α}
    (h : ∀ x, ∀ y ∈ G x, f y = g x) (xs : List β) :
    ((xs.flatMap G).map f).eraseDups =
      ((xs.filter fun x => !(G x).isEmpty).map g).eraseDups := by
  induction xs using List.reverseRecOn with
  | nil => rfl
  | append_singleton xs x ih =>
    rw [List.flatMap_append, List.flatMap_singleton, List.map_append, List.filter_append,
      List.map_append, List.filter_singleton]
    cases hG : G x with
    | nil =>
      rw [List.isEmpty_nil, Bool.not_true, cond_false, List.map_nil, List.map_nil,
        List.append_nil, List.append_nil]
      exact ih
    | cons y rest =>
      have hne : (y :: rest).map f ≠ [] := List.cons_ne_nil _ _
      have hsame : ∀ z ∈ (y :: rest).map f, z = g x := by
        intro z hz
        obtain ⟨w, hw, rfl⟩ := List.mem_map.mp hz
        exact h x w (hG ▸ hw)
      rw [eraseDups_append_same hne hsame]
      exact eraseDups_concat_congr ih (g x)

theorem length_eraseDups_le (xs : List α) : xs.eraseDups.length ≤ xs.length := by
  induction xs using List.reverseRecOn with
  | nil => exact Nat.le_refl 0
  | append_singleton xs x ih =>
    rw [eraseDups_concat, List.length_append, List.length_singleton]
    split
    · omega
    · rw [List.length_append, List.length_singleton]
      omega

theorem length_eraseDups_eq_iff (xs : List α) : xs.eraseDups.length = xs.length ↔ xs.Nodup := by
  induction xs using List.reverseRecOn with
  | nil => exact ⟨fun _ => List.nodup_nil, fun _ => rfl⟩
  | append_singleton xs x ih =>
    have hnodup : (xs ++ [x]).Nodup ↔ x ∉ xs ∧ xs.Nodup := by
      rw [← List.concat_eq_append, List.nodup_concat]
    have hle := length_eraseDups_le xs
    rw [hnodup, ← ih, eraseDups_concat, List.length_append, List.length_singleton]
    by_cases hx : x ∈ xs
    · rw [if_pos hx]
      exact ⟨fun h => absurd h (by omega), fun h => absurd hx h.1⟩
    · rw [if_neg hx, List.length_append, List.length_singleton, Nat.add_right_cancel_iff,
        and_iff_right hx]

end

end NestedQuery
