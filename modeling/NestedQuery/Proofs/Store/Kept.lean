import NestedQuery.Proofs.Store.Rows
import NestedQuery.Store.Bindings

/-!
# Rows of bindings

A plan binds stored rows only, whatever its joins and its filters are.

* `Binding.StoredIn`          all rows of a binding are stored;
* `Store.storedIn_bindings`   the bindings that a plan keeps are of this kind.
-/

namespace NestedQuery

/-- all rows of a binding are stored -/
def Binding.StoredIn (st : Store) (b : Binding) : Prop := ∀ e ∈ b, e.2 ∈ st.rowsOf e.2.model

namespace Store
variable {st : Store}

theorem row_mem_of_stored {model : String} {place : Nat} {table : List Row} {r : StoredRow}
    (h : r ∈ stored model place table) : r.row ∈ table := by
  induction table generalizing place with
  | nil => cases h
  | cons row rest ih =>
    rcases List.mem_cons.mp h with rfl | h
    · exact List.mem_cons_self
    · exact List.mem_cons_of_mem _ (ih h)

theorem mem_rowsOf_of_scan {model : String} {rows : List StoredRow}
    (h : st.scan model = .ok rows) : ∀ r ∈ rows, r ∈ st.rowsOf r.model := by
  obtain ⟨names, -, rfl⟩ := map_eq_ok.mp h
  intro r hr
  obtain ⟨name, -, hr⟩ := List.mem_flatMap.mp hr
  rw [(mem_stored hr).1]
  exact hr

theorem mem_rowsOf_of_related {model column : String} {v : Value} {rows : List StoredRow}
    (h : st.related model column v = .ok rows) : ∀ r ∈ rows, r ∈ st.rowsOf r.model := by
  rw [related] at h
  split at h
  · cases h
    exact List.forall_mem_nil _
  · obtain ⟨all, hscan, rfl⟩ := map_eq_ok.mp h
    exact fun r hr => mem_rowsOf_of_scan hscan r (List.mem_filter.mp hr).1

/-! ## joins -/

theorem storedIn_joinOne {j : Join} {b : Binding} {bs : List Binding}
    (h : st.joinOne j b = .ok bs) (hb : b.StoredIn st) : ∀ b' ∈ bs, b'.StoredIn st := by
  obtain ⟨rows, hrows, rfl⟩ := map_eq_ok.mp h
  obtain ⟨own, -, hrelated⟩ := bind_eq_ok.mp hrows
  intro b' hb'
  obtain ⟨row, hrow, rfl⟩ := List.mem_map.mp hb'
  exact List.forall_mem_cons.mpr ⟨mem_rowsOf_of_related hrelated row hrow, hb⟩

theorem storedIn_join {j : Join} {bs bs' : List Binding} (h : st.join j bs = .ok bs')
    (hbs : ∀ b ∈ bs, b.StoredIn st) : ∀ b ∈ bs', b.StoredIn st := by
  induction bs generalizing bs' with
  | nil =>
    cases h
    exact List.forall_mem_nil _
  | cons b rest ih =>
    obtain ⟨first, hfirst, h⟩ := bind_eq_ok.mp h
    obtain ⟨others, hothers, rfl⟩ := map_eq_ok.mp h
    obtain ⟨hb, hrest⟩ := List.forall_mem_cons.mp hbs
    exact List.forall_mem_append.mpr ⟨storedIn_joinOne hfirst hb, ih hothers hrest⟩

theorem storedIn_joinAll {js : List Join} {bs bs' : List Binding}
    (h : st.joinAll js bs = .ok bs') (hbs : ∀ b ∈ bs, b.StoredIn st) :
    ∀ b ∈ bs', b.StoredIn st := by
  induction js generalizing bs with
  | nil =>
    cases h
    exact hbs
  | cons j rest ih =>
    obtain ⟨joined, hjoin, h⟩ := bind_eq_ok.mp h
    exact ih h (storedIn_join hjoin hbs)

/-! ## filters -/

theorem sublist_of_filter {p : Predicate} {bs bs' : List Binding}
    (h : st.filter p bs = .ok bs') : bs'.Sublist bs := by
  induction bs generalizing bs' with
  | nil =>
    cases h
    exact .slnil
  | cons b rest ih =>
    obtain ⟨t, -, h⟩ := bind_eq_ok.mp h
    obtain ⟨kept, hkept, rfl⟩ := map_eq_ok.mp h
    split
    · exact (ih hkept).cons_cons b
    · exact (ih hkept).cons b

theorem sublist_of_filterAll {ps : List Predicate} {bs bs' : List Binding}
    (h : st.filterAll ps bs = .ok bs') : bs'.Sublist bs := by
  induction ps generalizing bs with
  | nil =>
    cases h
    exact .refl _
  | cons p rest ih =>
    obtain ⟨kept, hkept, h⟩ := bind_eq_ok.mp h
    exact (ih h).trans (sublist_of_filter hkept)

/-- the rows that a plan binds are stored -/
theorem storedIn_bindings {p : Plan} {bs : List Binding} (h : st.bindings p = .ok bs) :
    ∀ b ∈ bs, b.StoredIn st := by
  obtain ⟨roots, hroots, h⟩ := bind_eq_ok.mp h
  obtain ⟨joined, hjoin, hfilter⟩ := bind_eq_ok.mp h
  obtain ⟨rows, hscan, rfl⟩ := map_eq_ok.mp hroots
  have hstart : ∀ b ∈ rows.map (fun row => [(p.root.index, row)]), Binding.StoredIn st b := by
    intro b hb
    obtain ⟨row, hrow, rfl⟩ := List.mem_map.mp hb
    exact List.forall_mem_singleton.mpr (mem_rowsOf_of_scan hscan row hrow)
  exact fun b hb => storedIn_joinAll hjoin hstart b ((sublist_of_filterAll hfilter).subset hb)

end Store

end NestedQuery
