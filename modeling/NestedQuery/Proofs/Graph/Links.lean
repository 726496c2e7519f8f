import NestedQuery.Proofs.Graph.Chains
import NestedQuery.Proofs.Store.Filtering

/-!
# Links between the rows of a query

Rows for a query are linked where a block stands inside of another one.  The chains of a plan lead
along these links, and its joins are between their aliases.

* `Linked`, `Query.Linked`     the links of a tree of rows, read off the query;
* `mem_rowsAll_iff`            they lead to all rows below the root;
* `Planned.follows`            the chains of a plan lead along them, and along all of them;
* `Planned.linked_iff`         they are those between the aliases of a join.
-/

namespace NestedQuery

/-! ## links of rows -/

/-- a link of the rows for the blocks among the members of a block with the row `own` -/
inductive Linked : StoredRow → List Member → List RowTree → Link → Prop
  | skip {own : StoredRow} {a : Attribute} {f : Option Filter} {rest : List Member}
      {ts : List RowTree} {k : Link} (h : Linked own rest ts k) :
      Linked own (.attribute a f :: rest) ts k
  | here (own row : StoredRow) (r : Relationship) (model : String) (children rest : List Member)
      (inner ts : List RowTree) :
      Linked own (.relationship r model children :: rest) (.node row inner :: ts)
        ⟨own, r.name, row⟩
  | inside {own row : StoredRow} {r : Relationship} {model : String}
      {children rest : List Member} {inner ts : List RowTree} {k : Link}
      (h : Linked row children inner k) :
      Linked own (.relationship r model children :: rest) (.node row inner :: ts) k
  | later {own : StoredRow} {r : Relationship} {model : String} {children rest : List Member}
      {t : RowTree} {ts : List RowTree} {k : Link} (h : Linked own rest ts k) :
      Linked own (.relationship r model children :: rest) (t :: ts) k

theorem linked_attribute_iff {own : StoredRow} {a : Attribute} {f : Option Filter}
    {rest : List Member} {ts : List RowTree} {k : Link} :
    Linked own (.attribute a f :: rest) ts k ↔ Linked own rest ts k := by
  constructor
  · intro h
    cases h with
    | skip h => exact h
  · exact .skip

theorem linked_block_iff {own row : StoredRow} {r : Relationship} {model : String}
    {children rest : List Member} {inner ts : List RowTree} {k : Link} :
    Linked own (.relationship r model children :: rest) (.node row inner :: ts) k ↔
      k = ⟨own, r.name, row⟩ ∨ Linked row children inner k ∨ Linked own rest ts k := by
  constructor
  · intro h
    cases h with
    | here => exact Or.inl rfl
    | inside h => exact Or.inr (Or.inl h)
    | later h => exact Or.inr (Or.inr h)
  · rintro (rfl | h | h)
    · exact .here ..
    · exact .inside h
    · exact .later h

/-- the rows below a row are those that links lead to -/
theorem mem_rowsAll_iff {s : Schema} {st : Store} {model : String} {members : List Member}
    (hres : s.Resolves model members) {own : StoredRow} {ts : List RowTree}
    (hts : ts ∈ blockTrees st own members) {row : StoredRow} :
    row ∈ RowTree.rowsAll ts ↔ ∃ k, Linked own members ts k ∧ k.child = row := by
  induction hres generalizing own ts with
  | nil model =>
    cases List.mem_singleton.mp hts
    exact ⟨fun h => (nomatch h), fun ⟨_, h, _⟩ => (nomatch h)⟩
  | attr f _ _ ih =>
    rw [blockTrees_attribute] at hts
    simp only [linked_attribute_iff]
    exact ih hts
  | block _ _ _ _ ihc ih =>
    obtain ⟨x, below, after, -, hbelow, hafter, rfl⟩ := mem_blockTrees_relationship.mp hts
    simp only [linked_block_iff, or_and_right, exists_or, exists_eq_left]
    rw [RowTree.rowsAll_node, List.mem_cons, List.mem_append, ihc hbelow, ih hafter, eq_comm]

/-- a link leads from the row around some rows, or from one of them, to one of them -/
theorem Linked.mem_rowsAll {own : StoredRow} {members : List Member} {ts : List RowTree}
    {k : Link} (h : Linked own members ts k) :
    k.parent ∈ own :: RowTree.rowsAll ts ∧ k.child ∈ RowTree.rowsAll ts := by
  induction h with
  | skip _ ih => exact ih
  | here own row r model children rest inner ts =>
    exact ⟨List.mem_cons_self, List.mem_cons_self⟩
  | inside _ ih =>
    rw [RowTree.rowsAll_node, ← List.cons_append]
    exact ⟨List.mem_cons_of_mem _ (List.mem_append_left _ ih.1),
      List.mem_append_left _ (List.mem_cons_of_mem _ ih.2)⟩
  | @later own r model children rest t ts k _ ih =>
    refine ⟨?_, List.mem_append_right t.rows ih.2⟩
    rcases List.mem_cons.mp ih.1 with hp | hp
    · exact hp ▸ List.mem_cons_self
    · exact List.mem_cons_of_mem _ (List.mem_append_right t.rows hp)

/-- a link of the rows for a query -/
def Query.Linked (q : Query) (t : RowTree) (k : Link) : Prop :=
  NestedQuery.Linked t.row q.children t.inner k

/-! ## chains and links -/

section
variable {st : Store} {c : Coercions} (hs : st.schema.Sound)
include hs

/-- the chains of a block's members lead along the chain of the block and then along the links of
its rows, and reach all of these -/
theorem Planned.follows {scope : Scope} {n m : Nat} {members : List Member}
    {ds : List Directive} (h : Planned st.schema c scope n members ds m) {b : Binding}
    {root own : StoredRow} {ts : List RowTree}
    (hown : st.schema.isVariantOf own.model scope.bound.model = true)
    (hts : ts ∈ blockTrees st own members) (hrows : b.Holds n (RowTree.rowsAll ts))
    (hf : b.Follows st.schema root scope.chain own) :
    (∀ chain ∈ chainsOf ds, (∃ last, b.Follows st.schema root chain last) ∧
      ∀ k ∈ b.links root chain, k ∈ b.links root scope.chain ∨ Linked own members ts k) ∧
    ∀ k, Linked own members ts k → ∃ chain ∈ chainsOf ds, k ∈ b.links root chain := by
  induction h generalizing own ts with
  | nil scope n => exact ⟨fun _ h => (nomatch h), fun _ h => (nomatch h)⟩
  | bare _ ih =>
    rw [blockTrees_attribute] at hts
    simp only [linked_attribute_iff]
    exact ih hown hts hrows hf
  | filtered _ _ ih =>
    rw [blockTrees_attribute] at hts
    simp only [linked_attribute_iff]
    exact ih hown hts hrows hf
  | @block scope n m k r model children rest inner others hr hb hinner hothers ihc ih =>
    obtain ⟨row, below, after, rfl, hrow, hbelow, hafter, hhead, hleft, hright⟩ :=
      hinner.holds_block hts hrows
    -- one hop from the row of the block around it
    have hvariant := Store.isVariantOf_of_mem_rows hs (Store.mem_joined_iff.mp hrow).1
    obtain ⟨mm, hmm, -⟩ := Schema.isVariantOf_iff.mp hvariant
    have hsome : (st.schema.relationship? scope.bound.model r.name).isSome := by rw [hr]; rfl
    obtain ⟨rel, hrel⟩ := Option.isSome_iff_exists.mp (hs.relationship_of_variant hown hsome)
    have hhop : b.Follows st.schema own [⟨r.name, ⟨model, n⟩⟩] row :=
      .cons hhead hmm hrel (.nil row)
    have hchain : b.links root (scope.inner r ⟨model, n⟩).chain =
        b.links root scope.chain ++ [⟨own, r.name, row⟩] := by
      rw [Scope.inner, hf.links_append, Binding.links_cons hhead, Binding.links_nil]
    obtain ⟨hc₁, hc₂⟩ := ihc hvariant hbelow hleft (hf.append hhop)
    obtain ⟨ho₁, ho₂⟩ := ih hown hafter hright hf
    rw [hchain] at hc₁
    simp only [linked_block_iff]
    rw [chainsOf_block]
    -- a chain is that of the block, of a block inside of it or of one after it, as a link is
    constructor
    · intro chain hmem
      rcases List.mem_cons.mp hmem with rfl | hmem
      · refine ⟨⟨row, hf.append hhop⟩, fun x hx => ?_⟩
        rw [hchain] at hx
        exact (List.mem_append.mp hx).imp_right fun hx => Or.inl (List.mem_singleton.mp hx)
      · rcases List.mem_append.mp hmem with hmem | hmem
        · refine ⟨(hc₁ chain hmem).1, fun x hx => ?_⟩
          rcases (hc₁ chain hmem).2 x hx with hx | hx
          · exact (List.mem_append.mp hx).imp_right fun hx => Or.inl (List.mem_singleton.mp hx)
          · exact Or.inr (Or.inr (Or.inl hx))
        · refine ⟨(ho₁ chain hmem).1, fun x hx => ?_⟩
          exact ((ho₁ chain hmem).2 x hx).imp_right fun hx => Or.inr (Or.inr hx)
    · rintro x (rfl | hx | hx)
      · refine ⟨_, List.mem_cons_self, ?_⟩
        rw [hchain]
        exact List.mem_append_right _ (List.mem_singleton_self _)
      · obtain ⟨chain, hmem, hx⟩ := hc₂ x hx
        exact ⟨chain, List.mem_cons_of_mem _ (List.mem_append_left _ hmem), hx⟩
      · obtain ⟨chain, hmem, hx⟩ := ho₂ x hx
        exact ⟨chain, List.mem_cons_of_mem _ (List.mem_append_right _ hmem), hx⟩

end

/-- a link from the row of an alias to the row that a join of a plan binds -/
def Binding.Joins (b : Binding) (js : List Join) (k : Link) : Prop :=
  ∃ j ∈ js, b.row j.parent = .ok k.parent ∧ j.relationship.name = k.name ∧
    b.row j.bound = .ok k.child

/-- the links of joined rows are those between the aliases of the joins -/
theorem Planned.linked_iff {st : Store} {c : Coercions} {scope : Scope} {n m : Nat}
    {members : List Member} {ds : List Directive} (h : Planned st.schema c scope n members ds m)
    {b : Binding} {own : StoredRow} {ts : List RowTree} (hown : b.row scope.bound = .ok own)
    (hts : ts ∈ blockTrees st own members) (hrows : b.Holds n (RowTree.rowsAll ts)) {k : Link} :
    Linked own members ts k ↔ b.Joins (joinsOf ds) k := by
  induction h generalizing own ts with
  | nil scope n => exact ⟨fun h => (nomatch h), fun ⟨_, h, _⟩ => (nomatch h)⟩
  | bare _ ih =>
    rw [blockTrees_attribute] at hts
    rw [linked_attribute_iff]
    exact ih hown hts hrows
  | filtered _ _ ih =>
    rw [blockTrees_attribute] at hts
    rw [linked_attribute_iff]
    exact ih hown hts hrows
  | @block scope n m' m r model children rest inner others hr hb hinner hothers ihc ih =>
    obtain ⟨row, below, after, rfl, -, hbelow, hafter, hhead, hleft, hright⟩ :=
      hinner.holds_block hts hrows
    have hrow : b.row ⟨model, n⟩ = .ok row := Binding.row_eq_ok_iff.mpr hhead
    rw [linked_block_iff, ihc hrow hbelow hleft, ih hown hafter hright, Binding.Joins,
      Binding.Joins, Binding.Joins, joinsOf_block, List.exists_mem_cons_iff]
    refine or_congr ?_ ?_
    · rw [hown, hrow]
      constructor
      · rintro rfl
        exact ⟨rfl, rfl, rfl⟩
      · rintro ⟨hp, hn, hc⟩
        cases k
        cases hp
        cases hc
        cases hn
        rfl
    · simp only [List.mem_append, or_and_right, exists_or]

theorem Planned.checkJoins {s : Schema} {c : Coercions} {scope : Scope} {n m : Nat}
    {members : List Member} {ds : List Directive} (h : Planned s c scope n members ds m)
    {js : List Join} (hjs : Store.checkJoins s js = .ok ()) :
    Store.checkJoins s (joinsOf ds ++ js) = .ok () := by
  induction h generalizing js with
  | nil scope n => exact hjs
  | bare _ ih => exact ih hjs
  | filtered _ _ ih => exact ih hjs
  | block hr hb _ _ ihc ih =>
    obtain ⟨mm, hmm, -⟩ := Schema.isVariantOf_iff.mp hb
    rw [joinsOf_block, List.cons_append, List.append_assoc, Store.checkJoins,
      Schema.modelNamed_of_some hmm, bind_ok]
    exact ihc (ih hjs)

end NestedQuery
