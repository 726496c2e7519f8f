import NestedQuery.Proofs.Plan.Planned
import NestedQuery.Proofs.Query.Matching
import NestedQuery.Store.Bindings

/-!
# What the joins of a plan do

The joins extend a binding alias by alias, and a binding that knows the row of a block is extended
by the rows for the blocks inside of it, in document order.

* `Binding.extend`        rows for consecutive aliases;
* `RowTree.binding`       the binding that a tree of rows stands for;
* `joinAll_append`, `joinAll_map`   joins one after the other, and on many bindings;
* `Planned.joinAll`       the joins of a block's members give `blockTrees`, in its order;
* `Binding.Holds`         rows that are bound to consecutive numbers.
-/

namespace NestedQuery

namespace Binding

/-- rows for consecutive aliases, the first of which has the number `n` -/
def extend (b : Binding) (n : Nat) : List StoredRow → Binding
  | [] => b
  | row :: rest => extend ((n, row) :: b) (n + 1) rest

theorem extend_cons (b : Binding) (n : Nat) (row : StoredRow) (rest : List StoredRow) :
    b.extend n (row :: rest) = extend ((n, row) :: b) (n + 1) rest := rfl

theorem extend_append (b : Binding) (n : Nat) (xs ys : List StoredRow) :
    b.extend n (xs ++ ys) = (b.extend n xs).extend (n + xs.length) ys := by
  induction xs generalizing b n with
  | nil => rfl
  | cons x xs ih =>
    rw [List.cons_append, extend_cons, ih, extend_cons, List.length_cons]
    congr 1
    omega

theorem lookup_extend_lt {b : Binding} {n i : Nat} (h : i < n) (xs : List StoredRow) :
    (b.extend n xs).lookup i = b.lookup i := by
  induction xs generalizing b n with
  | nil => rfl
  | cons x xs ih =>
    rw [extend_cons, ih (Nat.lt_succ_of_lt h), List.lookup_cons]
    rw [beq_eq_false_iff_ne.mpr (Nat.ne_of_lt h)]

theorem lookup_extend (b : Binding) (n i : Nat) (xs : List StoredRow) :
    (b.extend n xs).lookup (n + i) = (xs[i]?).or (b.lookup (n + i)) := by
  induction xs generalizing b n i with
  | nil => rfl
  | cons x xs ih =>
    rw [extend_cons]
    cases i with
    | zero =>
      rw [Nat.add_zero, lookup_extend_lt (Nat.lt_succ_self n), List.lookup_cons_self]
      rfl
    | succ i =>
      have he : n + (i + 1) = n + 1 + i := by omega
      have hne : (n + (i + 1) == n) = false := beq_eq_false_iff_ne.mpr (by omega)
      rw [List.getElem?_cons_succ]
      conv_lhs => rw [he, ih, ← he]
      rw [List.lookup_cons, hne]

theorem row_eq_ok_iff {b : Binding} {a : Alias} {row : StoredRow} :
    b.row a = .ok row ↔ b.lookup a.index = some row := by
  cases h : b.lookup a.index <;> simp [Binding.row, h]

end Binding

/-- the binding of a tree: the root has the number zero, and the blocks follow in document
order -/
def RowTree.binding (t : RowTree) : Binding := Binding.extend [] 0 t.rows

theorem RowTree.lookup_binding (t : RowTree) (i : Nat) : t.binding.lookup i = t.rows[i]? := by
  have h := Binding.lookup_extend [] 0 i t.rows
  rw [Nat.zero_add] at h
  rw [RowTree.binding, h]
  cases t.rows[i]? <;> rfl

/-! ## joins in general -/

namespace Store
variable {st : Store}

theorem join_append {j : Join} {bs bs' cs cs' : List Binding} (h : st.join j bs = .ok cs)
    (h' : st.join j bs' = .ok cs') : st.join j (bs ++ bs') = .ok (cs ++ cs') := by
  induction bs generalizing cs with
  | nil =>
    cases h
    exact h'
  | cons b rest ih =>
    obtain ⟨first, hfirst, h⟩ := bind_eq_ok.mp h
    obtain ⟨others, hothers, rfl⟩ := map_eq_ok.mp h
    show (st.joinOne j b).bind (fun first => (st.join j (rest ++ bs')).map (first ++ ·)) = _
    rw [hfirst, bind_ok, ih hothers, map_ok, List.append_assoc]

theorem joinAll_append_bindings {js : List Join} {bs bs' cs cs' : List Binding}
    (h : st.joinAll js bs = .ok cs) (h' : st.joinAll js bs' = .ok cs') :
    st.joinAll js (bs ++ bs') = .ok (cs ++ cs') := by
  induction js generalizing bs bs' with
  | nil =>
    cases h
    cases h'
    rfl
  | cons j js ih =>
    obtain ⟨x, hx, h⟩ := bind_eq_ok.mp h
    obtain ⟨y, hy, h'⟩ := bind_eq_ok.mp h'
    show (st.join j (bs ++ bs')).bind (st.joinAll js) = _
    rw [join_append hx hy]
    exact ih h h'

theorem joinAll_append (js js' : List Join) (bs : List Binding) :
    st.joinAll (js ++ js') bs = (st.joinAll js bs).bind (st.joinAll js') := by
  induction js generalizing bs with
  | nil => rfl
  | cons j js ih =>
    show (st.join j bs).bind (st.joinAll (js ++ js')) =
      ((st.join j bs).bind (st.joinAll js)).bind (st.joinAll js')
    cases st.join j bs with
    | error e => rfl
    | ok cs => exact ih cs

theorem joinAll_map {α : Type} {js : List Join} {xs : List α} {f : α → Binding}
    {F : α → List Binding} (h : ∀ x ∈ xs, st.joinAll js [f x] = .ok (F x)) :
    st.joinAll js (xs.map f) = .ok (xs.flatMap F) := by
  induction xs with
  | nil =>
    clear h
    induction js with
    | nil => rfl
    | cons j js ih => exact ih
  | cons x xs ih =>
    have hx := h x List.mem_cons_self
    have hxs := ih fun y hy => h y (List.mem_cons_of_mem _ hy)
    rw [List.flatMap_cons]
    exact joinAll_append_bindings hx hxs

theorem joinAll_singleton {j : Join} {js : List Join} {b : Binding} {bs : List Binding}
    (h : st.joinOne j b = .ok bs) : st.joinAll (j :: js) [b] = st.joinAll js bs := by
  show ((st.joinOne j b).bind fun first => (st.join j []).map (first ++ ·)).bind
    (st.joinAll js) = _
  rw [h]
  show st.joinAll js (bs ++ []) = _
  rw [List.append_nil]

/-- a join binds the rows that are joined with the row it starts from -/
theorem joinOne_eq {b : Binding} (bound : Alias) {parent : Alias} {own : StoredRow} {m : Model}
    (hown : b.row parent = .ok own) (hm : st.schema.model? bound.model = some m)
    (r : Relationship) :
    st.joinOne ⟨bound, parent, r⟩ b =
      .ok ((st.joined r bound.model own).map fun row => (bound.index, row) :: b) := by
  rw [joinOne, relatedTo, hown, bind_ok, related_eq hm, map_ok]

end Store

/-! ## the joins of a query -/

section
variable {st : Store} {c : Coercions}

/-- the members of a block take one number for every row below it -/
theorem Planned.next_eq {scope : Scope} {n k : Nat} {members : List Member}
    {ds : List Directive} (h : Planned st.schema c scope n members ds k) {own : StoredRow}
    {ts : List RowTree} (hts : ts ∈ blockTrees st own members) :
    k = n + (RowTree.rowsAll ts).length := by
  induction h generalizing own ts with
  | nil scope n =>
    cases List.mem_singleton.mp hts
    rfl
  | bare _ ih =>
    rw [blockTrees_attribute] at hts
    exact ih hts
  | filtered _ _ ih =>
    rw [blockTrees_attribute] at hts
    exact ih hts
  | block _ _ _ _ ihc ih =>
    obtain ⟨row, inner, others, -, hinner, hothers, rfl⟩ := mem_blockTrees_relationship.mp hts
    rw [ih hothers, ihc hinner, RowTree.rowsAll_node, List.length_cons, List.length_append]
    omega

theorem Planned.joinAll {scope : Scope} {n k : Nat} {members : List Member}
    {ds : List Directive} (h : Planned st.schema c scope n members ds k) {b : Binding}
    {own : StoredRow} (hown : b.row scope.bound = .ok own) (hlt : scope.bound.index < n) :
    st.joinAll (joinsOf ds) [b] =
      .ok ((blockTrees st own members).map fun ts => b.extend n (RowTree.rowsAll ts)) := by
  induction h generalizing b own with
  | nil scope n => rfl
  | bare _ ih =>
    rw [blockTrees_attribute]
    exact ih hown hlt
  | filtered _ _ ih =>
    rw [blockTrees_attribute]
    exact ih hown hlt
  | @block scope n m k r model children rest inner others hr hb hinner hothers ihc ih =>
    obtain ⟨mm, hmm, -⟩ := Schema.isVariantOf_iff.mp hb
    have hone := Store.joinOne_eq ⟨model, n⟩ hown hmm r
    rw [joinsOf_block, Store.joinAll_singleton hone, blockTrees_relationship, List.map_flatMap]
    refine Store.joinAll_map fun row _ => ?_
    have hbind : Binding.row ((n, row) :: b) ⟨model, n⟩ = .ok row :=
      Binding.row_eq_ok_iff.mpr List.lookup_cons_self
    rw [Store.joinAll_append, ihc hbind (Nat.lt_succ_self n), bind_ok, List.map_flatMap]
    refine Store.joinAll_map fun inner hmem => ?_
    have hm := hinner.next_eq hmem
    -- the rows of the block leave the row of the enclosing block as it is
    have hsame : (Binding.extend ((n, row) :: b) (n + 1) (RowTree.rowsAll inner)).row
        scope.bound = .ok own := by
      rw [Binding.row_eq_ok_iff, Binding.lookup_extend_lt (Nat.lt_succ_of_lt hlt),
        List.lookup_cons, beq_eq_false_iff_ne.mpr (Nat.ne_of_lt hlt)]
      exact Binding.row_eq_ok_iff.mp hown
    rw [ih hsame (by omega), List.map_map]
    refine congrArg Except.ok (List.map_congr_left fun ts _ => ?_)
    rw [Function.comp_apply, RowTree.rowsAll_node, Binding.extend_cons, Binding.extend_append, hm]

end

/-! ## what a binding holds -/

section
variable {st : Store} {c : Coercions} {b : Binding}

/-- the rows of a list are bound to consecutive numbers, the first of which is `n` -/
def Binding.Holds (b : Binding) (n : Nat) (rows : List StoredRow) : Prop :=
  ∀ i row, rows[i]? = some row → b.lookup (n + i) = some row

theorem Binding.Holds.head {n : Nat} {row : StoredRow} {rows : List StoredRow}
    (h : b.Holds n (row :: rows)) : b.lookup n = some row :=
  h 0 row rfl

theorem Binding.Holds.tail {n : Nat} {row : StoredRow} {rows : List StoredRow}
    (h : b.Holds n (row :: rows)) : b.Holds (n + 1) rows := by
  intro i x hx
  rw [Nat.add_assoc, Nat.add_comm 1]
  exact h (i + 1) x hx

theorem Binding.Holds.left {n : Nat} {xs ys : List StoredRow} (h : b.Holds n (xs ++ ys)) :
    b.Holds n xs := by
  intro i x hx
  obtain ⟨hi, -⟩ := List.getElem?_eq_some_iff.mp hx
  exact h i x (by rw [List.getElem?_append_left hi, hx])

theorem Binding.Holds.right {n : Nat} {xs ys : List StoredRow} (h : b.Holds n (xs ++ ys)) :
    b.Holds (n + xs.length) ys := by
  intro i y hy
  rw [Nat.add_assoc]
  refine h (xs.length + i) y ?_
  rw [List.getElem?_append_right (Nat.le_add_right _ _), Nat.add_sub_cancel_left, hy]

theorem RowTree.holds_binding (t : RowTree) : t.binding.Holds 0 t.rows := by
  intro i row h
  rw [Nat.zero_add, t.lookup_binding, h]

/-- rows for a block and the members after it, with the numbers that they are bound to -/
theorem Planned.holds_block {inner : Scope} {n m : Nat} {own : StoredRow}
    {r : Relationship} {model : String} {children rest : List Member} {ts : List RowTree}
    {ds : List Directive} (hinner : Planned st.schema c inner (n + 1) children ds m)
    (hts : ts ∈ blockTrees st own (.relationship r model children :: rest))
    (hrows : b.Holds n (RowTree.rowsAll ts)) :
    ∃ row below after, ts = .node row below :: after ∧ row ∈ st.joined r model own ∧
      below ∈ blockTrees st row children ∧ after ∈ blockTrees st own rest ∧
      b.lookup n = some row ∧ b.Holds (n + 1) (RowTree.rowsAll below) ∧
      b.Holds m (RowTree.rowsAll after) := by
  obtain ⟨row, below, after, hrow, hbelow, hafter, rfl⟩ := mem_blockTrees_relationship.mp hts
  rw [RowTree.rowsAll_node] at hrows
  have hright := hrows.tail.right
  rw [← hinner.next_eq hbelow] at hright
  exact ⟨row, below, after, rfl, hrow, hbelow, hafter, hrows.head, hrows.tail.left, hright⟩

/-- rows for a query, with the numbers that they are bound to -/
theorem Query.planned_tree {q : Query} {p : Plan} (hq : q.Resolved st.schema)
    (hp : Plan.ofQuery st.schema c q = .ok p) {t : RowTree} (ht : t ∈ q.trees st) :
    ∃ ds k, p = ⟨q.model, ⟨q.model, 0⟩, ds⟩ ∧
      Planned st.schema c (.root q.model) 1 q.children ds k ∧ t.row ∈ st.rows q.model ∧
      t.inner ∈ blockTrees st t.row q.children ∧
      t.binding.row (Scope.root q.model).bound = .ok t.row ∧
      t.binding.Holds 1 (RowTree.rowsAll t.inner) := by
  obtain ⟨ds, k, hpeq, hds⟩ := planned_of_ofQuery hq hp
  obtain ⟨hroot, hinner⟩ := Query.mem_trees_iff.mp ht
  have hrows := t.holds_binding
  cases t with
  | node row inner =>
    exact ⟨ds, k, hpeq, hds, hroot, hinner, Binding.row_eq_ok_iff.mpr hrows.head, hrows.tail⟩

end

end NestedQuery
