import NestedQuery.Proofs.Graph.Records

/-!
# What the chains of a plan record

A chain leads from the row of the root through the rows of blocks inside of each other.  Every
binding of a plan places its root and goes along all chains; what it adds to a loading are the
links of its chains and the rows at their ends.

* `Binding.links`       the links of a chain that starts at a row;
* `Binding.Follows`     a chain that leads from one row to another, through known relationships;
* `Binding.Loads`       a binding whose chains all start at its root;
* `Records.followChain`, `Records.addBinding`, `Records.addBindings`
                        what a chain, a binding and many bindings record.
-/

namespace NestedQuery

namespace Binding

/-- the links of a chain that starts at a row -/
def links (b : Binding) (row : StoredRow) : List Hop → List Link
  | [] => []
  | hop :: rest =>
    match b.lookup hop.bound.index with
    | some child => ⟨row, hop.relationship, child⟩ :: b.links child rest
    | none => []

/-- a chain leads from a row to another one -/
inductive Follows (s : Schema) (b : Binding) : StoredRow → List Hop → StoredRow → Prop
  | nil (row : StoredRow) : Follows s b row [] row
  | cons {row child last : StoredRow} {hop : Hop} {rest : List Hop} {m : Model}
      {rel : Relationship} (hchild : b.lookup hop.bound.index = some child)
      (hm : s.model? child.model = some m)
      (hrel : s.relationship? row.model hop.relationship = some rel)
      (hrest : Follows s b child rest last) : Follows s b row (hop :: rest) last

variable {s : Schema} {b : Binding} {row mid last : StoredRow} {hop : Hop} {xs ys : List Hop}

theorem links_nil : b.links row [] = [] := rfl

theorem links_cons {child : StoredRow} (h : b.lookup hop.bound.index = some child) :
    b.links row (hop :: xs) = ⟨row, hop.relationship, child⟩ :: b.links child xs := by
  rw [links, h]

theorem Follows.append (h : b.Follows s row xs mid) (h' : b.Follows s mid ys last) :
    b.Follows s row (xs ++ ys) last := by
  induction h with
  | nil row => exact h'
  | cons hchild hm hrel _ ih => exact .cons hchild hm hrel (ih h')

theorem Follows.links_append (h : b.Follows s row xs mid) :
    b.links row (xs ++ ys) = b.links row xs ++ b.links mid ys := by
  induction h with
  | nil row => rfl
  | cons hchild _ _ _ ih => rw [List.cons_append, links_cons hchild, links_cons hchild, ih]; rfl

/-- all chains of a plan lead somewhere from the root of a binding -/
structure Loads (s : Schema) (p : Plan) (b : Binding) (root : StoredRow) : Prop where
  bound : b.row p.root = .ok root
  known : ∃ m, s.model? root.model = some m
  chains : ∀ chain ∈ p.chains, ∃ last, b.Follows s root chain last

/-- the links of all chains of a plan -/
def allLinks (p : Plan) (b : Binding) (root : StoredRow) : List Link :=
  p.chains.flatMap (b.links root)

end Binding

namespace Loading.Records
variable {s : Schema} {l : Loading} {rows roots : List StoredRow} {links : List Link}
  {b : Binding}

/-- a chain records its links, and the rows that they lead to -/
theorem followChain (h : l.Records s rows roots links) {row last : StoredRow} {chain : List Hop}
    (hf : b.Follows s row chain last) (hrow : row ∈ rows) :
    ∃ l', followChain s b l row (l.slot s row) chain = .ok l' ∧
      l'.Records s (rows ++ (b.links row chain).map (·.child)) roots
        (links ++ b.links row chain) ∧
      l.Agrees s l' rows := by
  induction hf generalizing l rows links with
  | nil row =>
    refine ⟨l, rfl, ?_, .refl s l rows⟩
    rw [Binding.links_nil, List.map_nil, List.append_nil, List.append_nil]
    exact h
  | @cons row child last hop rest m rel hchild hm hrel _ ih =>
    obtain ⟨l₁, hplace, h₁, hagrees₁⟩ := h.place hm
    have hrow₁ : row ∈ rows ++ [child] := List.mem_append_left _ hrow
    have hchild₁ : child ∈ rows ++ [child] := List.mem_append_right _ (List.mem_singleton_self _)
    let k : Link := ⟨row, hop.relationship, child⟩
    have h₂ := h₁.link (k := k) hrow₁ hchild₁ hrel
    obtain ⟨l₃, hrest, h₃, hagrees₃⟩ := ih h₂ hchild₁
    refine ⟨l₃, ?_, ?_, fun x hx => ?_⟩
    -- the slot was taken before the child was placed, and is still that of the row
    · have hb : b.row hop.bound = .ok child := by rw [Binding.row, hchild]
      have hattach : l₁.attach s row (l.slot s row) hop.relationship (l₁.slot s child) =
          .ok (l₁.link s k rel.cardinality) := by
        rw [← hagrees₁ row hrow]
        exact attach_eq (k := k) hrel
      rw [Loading.followChain, hb, bind_ok, hplace, bind_ok]
      dsimp only
      rw [hattach, bind_ok, ← slot_link rel.cardinality child]
      exact hrest
    · rw [Binding.links_cons hchild, List.map_cons]
      rw [List.append_assoc, List.append_assoc] at h₃
      exact h₃
    · rw [hagrees₃ x (List.mem_append_left _ hx), slot_link, hagrees₁ x hx]

theorem followChains (h : l.Records s rows roots links) {row : StoredRow}
    {chains : List (List Hop)} (hf : ∀ chain ∈ chains, ∃ last, b.Follows s row chain last)
    (hrow : row ∈ rows) :
    ∃ l', followChains s b row (l.slot s row) l chains = .ok l' ∧
      l'.Records s (rows ++ (chains.flatMap (b.links row)).map (·.child)) roots
        (links ++ chains.flatMap (b.links row)) ∧
      l.Agrees s l' rows := by
  induction chains generalizing l rows links with
  | nil =>
    refine ⟨l, rfl, ?_, .refl s l rows⟩
    rw [List.flatMap_nil, List.map_nil, List.append_nil, List.append_nil]
    exact h
  | cons chain rest ih =>
    obtain ⟨⟨last, hchain⟩, hf⟩ := List.forall_mem_cons.mp hf
    obtain ⟨l₁, hfirst, h₁, hagrees₁⟩ := h.followChain hchain hrow
    obtain ⟨l₂, hrest, h₂, hagrees₂⟩ := ih h₁ hf (List.mem_append_left _ hrow)
    refine ⟨l₂, ?_, ?_, hagrees₁.trans hagrees₂⟩
    · rw [Loading.followChains, hfirst, bind_ok, ← hagrees₁ row hrow]
      exact hrest
    · rw [List.flatMap_cons, List.map_append, ← List.append_assoc, ← List.append_assoc]
      exact h₂

/-- a binding records its root and the links of its chains -/
theorem addBinding (h : l.Records s rows roots links) {p : Plan} {root : StoredRow}
    (hb : b.Loads s p root) :
    ∃ l', l.addBinding s p b = .ok l' ∧
      l'.Records s (rows ++ root :: (b.allLinks p root).map (·.child)) (roots ++ [root])
        (links ++ b.allLinks p root) := by
  obtain ⟨m, hm⟩ := hb.known
  obtain ⟨l₁, hplace, h₁, -⟩ := h.place hm
  have hroot : root ∈ rows ++ [root] := List.mem_append_right _ (List.mem_singleton_self root)
  have h₂ := h₁.addRoot hroot
  have hslot : (l₁.addRoot (l₁.slot s root)).slot s root = l₁.slot s root := by
    unfold Loading.addRoot
    split <;> rfl
  obtain ⟨l₃, hchains, h₃, -⟩ := h₂.followChains hb.chains hroot
  refine ⟨l₃, ?_, ?_⟩
  · rw [Loading.addBinding, hb.bound, bind_ok, hplace, bind_ok]
    rw [hslot] at hchains
    exact hchains
  · rw [List.append_assoc] at h₃
    exact h₃

theorem addBindings {p : Plan} {α : Type} {xs : List α} {f : α → Binding} {root : α → StoredRow}
    (h : l.Records s rows roots links) (hxs : ∀ x ∈ xs, (f x).Loads s p (root x)) :
    ∃ l', l.addBindings s p (xs.map f) = .ok l' ∧
      l'.Records s
        (rows ++ xs.flatMap fun x => root x :: ((f x).allLinks p (root x)).map (·.child))
        (roots ++ xs.map root) (links ++ xs.flatMap fun x => (f x).allLinks p (root x)) := by
  induction xs generalizing l rows roots links with
  | nil =>
    refine ⟨l, rfl, ?_⟩
    rw [List.flatMap_nil, List.flatMap_nil, List.map_nil, List.append_nil, List.append_nil,
      List.append_nil]
    exact h
  | cons x xs ih =>
    obtain ⟨hx, hxs⟩ := List.forall_mem_cons.mp hxs
    obtain ⟨l₁, hfirst, h₁⟩ := h.addBinding hx
    obtain ⟨l₂, hrest, h₂⟩ := ih h₁ hxs
    refine ⟨l₂, ?_, ?_⟩
    · rw [List.map_cons, Loading.addBindings, hfirst, bind_ok]
      exact hrest
    · rw [List.append_assoc, List.append_assoc, List.append_assoc] at h₂
      exact h₂

end Loading.Records

end NestedQuery
