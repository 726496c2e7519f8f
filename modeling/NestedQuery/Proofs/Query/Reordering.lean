import NestedQuery.Proofs.Plan.Alike
import NestedQuery.Proofs.Query.Quantified
import NestedQuery.Proofs.Service.Answering

/-!
# The order of attributes

The members of a block may be written in another order, as long as its blocks keep theirs.  The
joins and the chains of a plan come from the blocks, so that only the order of its filters changes.
Filters of a query do not fail for joined rows, so that they keep the same bindings in any order.

* `Reordered`, `Query.Reordered`   members in another order, at any depth;
* `swap_planMembers`               an attribute and a member next to it change places;
* `planMembers_perm`               members are planned alike in any order that keeps their blocks;
* `Store.filterAll_perm`           filters that do not fail, in any order;
* `Query.submit_reordered`         queries in another order.
-/

namespace NestedQuery

/-! ## other orders -/

def Member.isBlock : Member → Bool
  | .attribute _ _ => false
  | .relationship _ _ _ => true

/-- members of blocks are permuted, and the blocks among the members of a block keep their order -/
inductive Reordered : List Member → List Member → Prop
  | nil : Reordered [] []
  | attr {ms ms' : List Member} (a : Attribute) (f : Option Filter) (h : Reordered ms ms') :
      Reordered (.attribute a f :: ms) (.attribute a f :: ms')
  | block {children children' ms ms' : List Member} (r : Relationship) (model : String)
      (hchildren : Reordered children children') (h : Reordered ms ms') :
      Reordered (.relationship r model children :: ms) (.relationship r model children' :: ms')
  | permuted {ms ms' ms'' : List Member} (h : Reordered ms ms') (hperm : ms'.Perm ms'')
      (hblocks : ms'.filter Member.isBlock = ms''.filter Member.isBlock) : Reordered ms ms''

structure Query.Reordered (q q' : Query) : Prop where
  model : q.model = q'.model
  members : NestedQuery.Reordered q.children q'.children

/-! ## planning -/

theorem appends_perm : Appends List.Perm := ⟨List.Perm.refl, List.Perm.append⟩

namespace DirectivesAlike
variable {x y z : List Directive × Nat}

theorem symm (h : DirectivesAlike List.Perm x y) : DirectivesAlike List.Perm y x :=
  ⟨h.joins.symm, h.chains.symm, h.filters.symm, h.next.symm⟩

theorem trans (h : DirectivesAlike List.Perm x y) (h' : DirectivesAlike List.Perm y z) :
    DirectivesAlike List.Perm x z :=
  ⟨h.joins.trans h'.joins, h.chains.trans h'.chains, h.filters.trans h'.filters,
    h.next.trans h'.next⟩

end DirectivesAlike

section
variable {s : Schema} {c : Coercions} {scope : Scope} {n : Nat}

theorem joinsOf_filterDirectives {a : Attribute} {f : Option Filter} {ds : List Directive}
    (h : filterDirectives s c scope a f = .ok ds) : joinsOf ds = [] ∧ chainsOf ds = [] := by
  obtain ⟨a', -, h⟩ := bind_eq_ok.mp h
  cases f with
  | none =>
    cases h
    exact ⟨rfl, rfl⟩
  | some f =>
    obtain ⟨p, -, rfl⟩ := map_eq_ok.mp h
    exact ⟨rfl, rfl⟩

theorem planMembers_cons (m : Member) (rest : List Member) :
    planMembers s c scope n (m :: rest) =
      (planMember s c scope n m).bind fun x =>
        (planMembers s c scope x.2 rest).map fun y => (x.1 ++ y.1, y.2) := rfl

/-- an attribute takes no number -/
theorem planMembers_attribute (a : Attribute) (f : Option Filter) (rest : List Member) :
    planMembers s c scope n (.attribute a f :: rest) =
      (filterDirectives s c scope a f).bind fun first =>
        (planMembers s c scope n rest).map fun y => (first ++ y.1, y.2) := by
  rw [planMembers_cons, planMember]
  cases filterDirectives s c scope a f <;> rfl

/-- an attribute and the member after it change places -/
theorem swap_attribute (a : Attribute) (f : Option Filter) (m : Member) (rest : List Member) :
    SameOutcome (DirectivesAlike List.Perm)
      (planMembers s c scope n (.attribute a f :: m :: rest))
      (planMembers s c scope n (m :: .attribute a f :: rest)) := by
  rw [planMembers_attribute, planMembers_cons, planMembers_cons]
  cases hfirst : filterDirectives s c scope a f with
  | error e =>
    cases planMember s c scope n m with
    | error e' => exact .error e e'
    | ok second =>
      rw [bind_ok, bind_ok, planMembers_attribute, hfirst]
      exact .error e e
  | ok first =>
    cases planMember s c scope n m with
    | error e => exact .error e e
    | ok second =>
      rw [bind_ok, bind_ok, bind_ok, planMembers_attribute, hfirst, bind_ok]
      cases planMembers s c scope second.2 rest with
      | error e => exact .error e e
      | ok others =>
        obtain ⟨hjoins, hchains⟩ := joinsOf_filterDirectives hfirst
        refine .ok ⟨?_, ?_, ?_, rfl⟩
        · simp only [joinsOf_append, hjoins, List.nil_append]
        · simp only [chainsOf_append, hchains, List.nil_append]
        · simp only [filtersOf_append]
          exact List.perm_append_comm_assoc _ _ _

/-- two members next to each other change places if one of them is an attribute -/
theorem swap_planMembers {m m' : Member} (h : m.isBlock = false ∨ m'.isBlock = false)
    (rest : List Member) :
    SameOutcome (DirectivesAlike List.Perm) (planMembers s c scope n (m :: m' :: rest))
      (planMembers s c scope n (m' :: m :: rest)) := by
  rcases h with h | h
  · obtain ⟨a, f⟩ | _ := m
    · exact swap_attribute a f m' rest
    · cases h
  · obtain ⟨a, f⟩ | _ := m'
    · exact (swap_attribute a f m rest).symm fun _ _ => .symm
    · cases h

/-- a member comes to the front, past attributes only or as an attribute itself -/
theorem front_planMembers {m : Member} {front : List Member}
    (h : m.isBlock = false ∨ ∀ x ∈ front, x.isBlock = false) (rest : List Member) (n : Nat) :
    SameOutcome (DirectivesAlike List.Perm) (planMembers s c scope n (front ++ m :: rest))
      (planMembers s c scope n (m :: (front ++ rest))) := by
  induction front generalizing n with
  | nil => exact planMembers_refl appends_perm _
  | cons x front ih =>
    have hx : x.isBlock = false ∨ m.isBlock = false :=
      h.symm.imp_left fun h => h x List.mem_cons_self
    have hfront := h.imp_right fun h y hy => h y (List.mem_cons_of_mem _ hy)
    have hcons := planMembers_tail_congr (n := n) appends_perm x (ih hfront)
    exact hcons.trans (swap_planMembers hx _) fun _ _ _ => .trans

/-- the first member of a list in another list with the same blocks: it is an attribute, or a block
behind attributes only -/
theorem split_of_filter_eq {m : Member} {ms ms' : List Member} (hmem : m ∈ ms')
    (hblocks : (m :: ms).filter Member.isBlock = ms'.filter Member.isBlock) :
    ∃ front rest, ms' = front ++ m :: rest ∧
      (m.isBlock = false ∨ ∀ x ∈ front, x.isBlock = false) ∧
      ms.filter Member.isBlock = (front ++ rest).filter Member.isBlock := by
  obtain ⟨front, rest, rfl, hfront⟩ := List.eq_append_cons_of_mem hmem
  refine ⟨front, rest, rfl, ?_⟩
  rw [List.filter_append, List.filter_cons, List.filter_cons] at hblocks
  rw [List.filter_append]
  cases hm : m.isBlock with
  | false =>
    rw [hm] at hblocks
    exact ⟨.inl rfl, hblocks⟩
  | true =>
    rw [hm, if_pos rfl, if_pos rfl] at hblocks
    cases hf : front.filter Member.isBlock with
    | nil =>
      rw [hf] at hblocks
      refine ⟨.inr fun x hx => ?_, (List.cons.inj hblocks).2⟩
      exact Bool.eq_false_iff.mpr (List.filter_eq_nil_iff.mp hf x hx)
    | cons b bs =>
      rw [hf] at hblocks
      have hb : b ∈ front := List.mem_of_mem_filter (hf ▸ List.mem_cons_self)
      exact absurd ((List.cons.inj hblocks).1 ▸ hb) hfront

/-- members are planned alike in any order that keeps their blocks -/
theorem planMembers_perm {ms ms' : List Member} (hperm : ms.Perm ms')
    (hblocks : ms.filter Member.isBlock = ms'.filter Member.isBlock) (n : Nat) :
    SameOutcome (DirectivesAlike List.Perm) (planMembers s c scope n ms)
      (planMembers s c scope n ms') := by
  induction ms generalizing ms' n with
  | nil =>
    cases hperm.nil_eq
    exact planMembers_refl appends_perm _
  | cons m ms ih =>
    obtain ⟨front, rest, rfl, hfront, hblocks⟩ :=
      split_of_filter_eq (hperm.mem_iff.mp List.mem_cons_self) hblocks
    have hperm : ms.Perm (front ++ rest) := (hperm.trans List.perm_middle).cons_inv
    have hcons := planMembers_tail_congr (n := n) appends_perm m (ih hperm hblocks)
    exact hcons.trans ((front_planMembers hfront rest n).symm fun _ _ => .symm) fun _ _ _ => .trans

theorem Reordered.planMembers {ms ms' : List Member} (h : Reordered ms ms') (scope : Scope)
    (n : Nat) :
    SameOutcome (DirectivesAlike List.Perm) (planMembers s c scope n ms)
      (planMembers s c scope n ms') := by
  induction h generalizing scope n with
  | nil => exact planMembers_refl appends_perm []
  | attr a f _ ih => exact planMembers_tail_congr appends_perm _ (ih scope)
  | block r model _ _ ihc ih =>
    exact planMembers_cons_congr appends_perm (planMember_block_congr r model ihc) (ih scope)
  | permuted _ hperm hblocks ih =>
    exact (ih scope n).trans (planMembers_perm hperm hblocks n) fun _ _ _ => .trans

theorem Query.Reordered.ofQuery {q q' : Query} (h : q.Reordered q') :
    SameOutcome (Plan.Alike List.Perm) (Plan.ofQuery s c q) (Plan.ofQuery s c q') :=
  Plan.ofQuery_congr h.model h.members.planMembers

end

/-! ## carrying out -/

/-- filters that do not fail keep the same bindings in any order -/
theorem Store.filterAll_perm {st : Store} {ps ps' : List Predicate} {bs : List Binding}
    (hperm : ps.Perm ps') (h : ∀ b ∈ bs, ∀ p ∈ ps, ∃ t, p.truth st b none = .ok t) :
    st.filterAll ps bs = st.filterAll ps' bs := by
  rw [filterAll_eq h, filterAll_eq fun b hb p hp => h b hb p (hperm.mem_iff.mpr hp)]
  exact congrArg (fun f => Except.ok (bs.filter f)) (funext fun b => hperm.all_eq)

section
variable {st : Store} {c : Coercions} {q : Query} {p p' : Plan}

theorem Store.bindings_perm (hq : q.Resolved st.schema) (hp : Plan.ofQuery st.schema c q = .ok p)
    (h : p.Alike List.Perm p') : st.bindings p = st.bindings p' := by
  obtain ⟨bs, hroot, hjoined⟩ := Query.joined_eq hq hp
  rw [Store.bindings, Store.bindings, ← h.root, ← h.joins, hroot, bind_ok, bind_ok, hjoined]
  exact Store.filterAll_perm h.filters (Query.truth_joined hq hp)

/-- a query that is read, and the query with its attributes in another order, are planned or
refused together.  If they are planned, there is one graph and one document for both. -/
theorem Query.submit_reordered {ts : TokenStream} {q' : Query} (hs : st.schema.Built)
    (hq : Query.ofTokens st.schema ts = .ok q) (h : q.Reordered q') (c : Coercions) :
    ((∃ p, Plan.ofQuery st.schema c q = .ok p) ↔ ∃ p', Plan.ofQuery st.schema c q' = .ok p') ∧
      ∀ p p', Plan.ofQuery st.schema c q = .ok p → Plan.ofQuery st.schema c q' = .ok p' →
        ∃ g doc, st.submit p = .ok g ∧ st.submit p' = .ok g ∧ g.document = .ok doc := by
  have hr := Query.resolved_of_ofTokens hs.sound hq
  refine ⟨h.ofQuery.exists_ok_iff, fun p p' hp hp' => ?_⟩
  have halike := h.ofQuery (s := st.schema) (c := c)
  rw [hp, hp'] at halike
  cases halike with
  | ok halike =>
    obtain ⟨doc, hdoc⟩ := Store.exists_document hs.sound hr hp
    obtain ⟨g, hg, hdoc⟩ := bind_eq_ok.mp hdoc
    have hsame := Store.submit_congr halike (Store.bindings_perm hr hp halike)
    exact ⟨g, doc, hg, hsame ▸ hg, hdoc⟩

end

namespace Samples

/-- attributes with filters come first -/
def attributesFirst : Query where
  model := "Sample"
  children := [
    .attribute ⟨"Sample", "id", .integer⟩ (some (.term ⟨.star, .gt, .integer 0⟩)),
    .relationship tubes "Tube" [
      .attribute type (some (.term ⟨.all, .eq, .string "a"⟩)),
      .attribute ⟨"Tube", "sample", .integer⟩ none]]

def attributesLast : Query where
  model := "Sample"
  children := [
    .relationship tubes "Tube" [
      .attribute ⟨"Tube", "sample", .integer⟩ none,
      .attribute type (some (.term ⟨.all, .eq, .string "a"⟩))],
    .attribute ⟨"Sample", "id", .integer⟩ (some (.term ⟨.star, .gt, .integer 0⟩))]

theorem reordered_attributesFirst : attributesFirst.Reordered attributesLast :=
  ⟨rfl, .permuted (.attr _ _ (.block _ _ (.permuted (.attr _ _ (.attr _ _ .nil)) (.swap _ _ _) rfl)
    .nil)) (.swap _ _ _) rfl⟩

def attributesFirstText : String :=
  "query Sample \x7b\n id [* > 0]\n tubes \x7b\n  type [all == \"a\"]\n  sample\n \x7d\n\x7d"

theorem built_store : store.schema.Built := by
  have hschema : store.schema = schema := by cbv
  exact hschema ▸ built

theorem ofTokens_attributesFirst :
    Query.ofTokens store.schema (tokenize attributesFirstText) = .ok attributesFirst := by cbv

/-- both orders have one graph -/
theorem submit_reordered_attributes :
    store.schema.Built ∧
      Query.ofTokens store.schema (tokenize attributesFirstText) = .ok attributesFirst ∧
      attributesFirst.Reordered attributesLast ∧
      ∃ p p' g doc, Plan.ofQuery store.schema .standard attributesFirst = .ok p ∧
        Plan.ofQuery store.schema .standard attributesLast = .ok p' ∧
        store.submit p = .ok g ∧ store.submit p' = .ok g ∧ g.document = .ok doc := by
  obtain ⟨hiff, hsubmit⟩ := Query.submit_reordered built_store ofTokens_attributesFirst
    reordered_attributesFirst .standard
  obtain ⟨p, hp⟩ : ∃ p, Plan.ofQuery store.schema .standard attributesFirst = .ok p := ⟨_, by cbv⟩
  obtain ⟨p', hp'⟩ := hiff.mp ⟨p, hp⟩
  obtain ⟨g, doc, hg, hg', hdoc⟩ := hsubmit p p' hp hp'
  exact ⟨built_store, ofTokens_attributesFirst, reordered_attributesFirst, p, p', g, doc, hp, hp',
    hg, hg', hdoc⟩

end Samples

end NestedQuery
