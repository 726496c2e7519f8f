import NestedQuery.Proofs.Plan.Planned
import NestedQuery.Proofs.Plan.Terms
import NestedQuery.Proofs.Query.Parsing

/-!
# Plans are well formed

The blocks of a query, numbered in the order of the text, say which chains and which joins its
plan has, whether the query was read or made otherwise.

* `Query.ways`                  for every block the blocks from the root down to it;
* `Predicate.aliases`, `Predicate.Scoped`   the aliases of a filter, and where it looks at related
                                rows;
* `Directive.Stands`            what comes before and after a directive;
* `Plan.WellFormed`             chains, joins and filters as the blocks ask for them;
* `Plan.wellFormed_of_ofQuery`  every plan of a query is well formed.

All of it is proved by induction on `Emits`: the first free number grows by the number of blocks,
the chain of a scope is the way to its block, and the aliases of a scope are bound before.
-/

namespace NestedQuery

/-! ## blocks in the order of the text -/

mutual

/-- the ways to the blocks of a member of the block at the end of `way`; a block has the first
number that is free, and the blocks inside of it have the next ones -/
def Member.ways (way : List Hop) (n : Nat) : Member → List (List Hop)
  | .attribute _ _ => []
  | .relationship r model children =>
    let here := way ++ [⟨r.name, ⟨model, n⟩⟩]
    here :: waysAll here (n + 1) children

def waysAll (way : List Hop) (n : Nat) : List Member → List (List Hop)
  | [] => []
  | m :: rest => m.ways way n ++ waysAll way (n + (m.ways way n).length) rest

end

/-- for every block the blocks from the root, which has the number zero, down to it -/
def Query.ways (q : Query) : List (List Hop) := waysAll [] 1 q.children

theorem waysAll_attribute (way : List Hop) (n : Nat) (a : Attribute) (f : Option Filter)
    (rest : List Member) : waysAll way n (.attribute a f :: rest) = waysAll way n rest := rfl

/-- a block comes before the blocks inside of it, and these before the ones after it -/
theorem waysAll_block (way : List Hop) (n : Nat) (r : Relationship) (model : String)
    (children rest : List Member) :
    waysAll way n (.relationship r model children :: rest) =
      (way ++ [⟨r.name, ⟨model, n⟩⟩]) ::
        (waysAll (way ++ [⟨r.name, ⟨model, n⟩⟩]) (n + 1) children ++
          waysAll way (n + 1 + (waysAll (way ++ [⟨r.name, ⟨model, n⟩⟩]) (n + 1) children).length)
            rest) := by
  show _ :: (_ ++ waysAll way (n + (_ + 1)) rest) = _
  rw [Nat.add_right_comm, Nat.add_assoc]

/-! ## filters -/

namespace Predicate

/-- the aliases that are compared and those whose related rows are asked for -/
def aliases : Predicate → List Alias
  | and left right => left.aliases ++ right.aliases
  | or left right => left.aliases ++ right.aliases
  | not inner => inner.aliases
  | compare (.bound a _) _ _ => [a]
  | compare (.related _) _ _ => []
  | exist parent _ inner => parent :: inner.aliases

/-- columns of related rows stand inside of an `exist`, and only there -/
def Scoped (inside : Bool) : Predicate → Prop
  | and left right => left.Scoped inside ∧ right.Scoped inside
  | or left right => left.Scoped inside ∧ right.Scoped inside
  | not inner => inner.Scoped inside
  | compare (.bound _ _) _ _ => inside = false
  | compare (.related _) _ _ => inside = true
  | exist _ _ inner => inner.Scoped true

end Predicate

namespace Scope

/-- the aliases that a scope can name -/
def Names (scope : Scope) (a : Alias) : Prop :=
  a = scope.bound ∨ ∃ r, scope.enclosing = some (r, a)

theorem scoped_termPredicate {scope : Scope} {c : Coercions} {a : Attribute} {t : Term}
    {p : Predicate} (h : scope.termPredicate c a t = .ok p) :
    p.Scoped false ∧ ∀ x ∈ p.aliases, scope.Names x := by
  obtain ⟨selector, operator, literal⟩ := t
  obtain ⟨v, read, -, hread, rfl⟩ := termPredicate_eq_ok_iff.mp h
  cases hread with
  | star _ =>
    refine ⟨rfl, fun x hx => ?_⟩
    exact .inl (List.mem_singleton.mp hx)
  | any he _ =>
    refine ⟨rfl, fun x hx => ?_⟩
    exact .inr ⟨_, List.mem_singleton.mp hx ▸ he⟩
  | all he _ =>
    refine ⟨rfl, fun x hx => ?_⟩
    exact .inr ⟨_, List.mem_singleton.mp hx ▸ he⟩

theorem scoped_predicate {scope : Scope} {c : Coercions} {a : Attribute} {f : Filter}
    {p : Predicate} (h : scope.predicate c a f = .ok p) :
    p.Scoped false ∧ ∀ x ∈ p.aliases, scope.Names x := by
  induction f generalizing p with
  | term t => exact scoped_termPredicate h
  | joined op left right ihl ihr =>
    obtain ⟨l, hl, h⟩ := bind_eq_ok.mp h
    obtain ⟨r, hr, rfl⟩ := map_eq_ok.mp h
    obtain ⟨hls, hla⟩ := ihl hl
    obtain ⟨hrs, hra⟩ := ihr hr
    have hmem : ∀ x ∈ l.aliases ++ r.aliases, scope.Names x := by
      intro x hx
      rcases List.mem_append.mp hx with hx | hx
      · exact hla x hx
      · exact hra x hx
    cases op with
    | and => exact ⟨⟨hls, hrs⟩, hmem⟩
    | or => exact ⟨⟨hls, hrs⟩, hmem⟩

end Scope

/-! ## directives in their order -/

/-- the aliases that are bound before some of the directives -/
def boundBefore (root : Alias) (before : List Directive) : List Alias :=
  root :: (joinsOf before).map Join.bound

/-- a directive between others: aliases are used after the joins that bind them, and a chain comes
right before the join of its last block -/
def Directive.Stands (root : Alias) (before after : List Directive) : Directive → Prop
  | .join j => j.parent ∈ boundBefore root before ∧
      ∃ front chain, before = front ++ [.load chain]
  | .load chain => ∃ j rest, after = .join j :: rest ∧
      chain.getLast? = some ⟨j.relationship.name, j.bound⟩
  | .filter p => p.Scoped false ∧ ∀ a ∈ p.aliases, a ∈ boundBefore root before

/-- directives that stand where they may, after those in `before` -/
def Ordered (root : Alias) (before ds : List Directive) : Prop :=
  ∀ front d after, ds = front ++ d :: after → d.Stands root (before ++ front) after

theorem mem_boundBefore_append {root a : Alias} {before : List Directive}
    (h : a ∈ boundBefore root before) (others : List Directive) :
    a ∈ boundBefore root (before ++ others) := by
  rcases List.mem_cons.mp h with rfl | h
  · exact List.mem_cons_self
  · refine List.mem_cons_of_mem _ ?_
    rw [joinsOf, List.filterMap_append, List.map_append]
    exact List.mem_append_left _ h

theorem Directive.Stands.append {root : Alias} {before after : List Directive} {d : Directive}
    (h : d.Stands root before after) (others : List Directive) :
    d.Stands root before (after ++ others) := by
  cases d with
  | join j => exact h
  | load chain =>
    obtain ⟨j, rest, rfl, hlast⟩ := h
    exact ⟨j, rest ++ others, rfl, hlast⟩
  | filter p => exact h

namespace Ordered
variable {root : Alias}

theorem nil (before : List Directive) : Ordered root before [] := by
  intro front d after h
  cases front <;> cases h

theorem cons {before ds : List Directive} {d : Directive} (hd : d.Stands root before ds)
    (h : Ordered root (before ++ [d]) ds) : Ordered root before (d :: ds) := by
  intro front d' after he
  cases front with
  | nil =>
    cases he
    rw [List.append_nil]
    exact hd
  | cons x front =>
    cases he
    have hstands := h front d' after rfl
    rw [List.append_assoc] at hstands
    exact hstands

theorem head {before ds : List Directive} {d : Directive} (h : Ordered root before (d :: ds)) :
    d.Stands root before ds := by
  have hstands := h [] d ds rfl
  rw [List.append_nil] at hstands
  exact hstands

theorem tail {before ds : List Directive} {d : Directive} (h : Ordered root before (d :: ds)) :
    Ordered root (before ++ [d]) ds := by
  intro front d' after he
  have hstands := h (d :: front) d' after (by rw [he, List.cons_append])
  rw [List.append_assoc]
  exact hstands

theorem append {before ds others : List Directive} (h : Ordered root before ds)
    (ho : Ordered root (before ++ ds) others) : Ordered root before (ds ++ others) := by
  induction ds generalizing before with
  | nil =>
    rw [List.append_nil] at ho
    exact ho
  | cons d ds ih =>
    refine cons (h.head.append others) (ih h.tail ?_)
    rw [List.append_assoc]
    exact ho

end Ordered

/-! ## the directives of a query -/

/-- what is bound before the members of a block stays bound, and their directives stand where they
may -/
theorem Emits.ordered {s : Schema} {c : Coercions} {scope : Scope} {n k : Nat}
    {members : List Member} {ds : List Directive} (h : Emits s c scope n members ds k)
    {root : Alias} {before : List Directive}
    (hbound : ∀ a, scope.Names a → a ∈ boundBefore root before) : Ordered root before ds := by
  induction h generalizing before with
  | nil => exact .nil before
  | bare _ _ ih => exact ih hbound
  | filtered _ hp _ ih =>
    obtain ⟨hs, hnames⟩ := Scope.scoped_predicate hp
    refine .cons ⟨hs, fun a ha => hbound a (hnames a ha)⟩ (ih fun a ha => ?_)
    exact mem_boundBefore_append (hbound a ha) _
  | @block scope n m k r r' model children rest inner others _ _ _ ihc ih =>
    have hload := fun a ha => mem_boundBefore_append (hbound a ha)
      [.load (scope.inner r' ⟨model, n⟩).chain]
    have hjoin := fun a ha => mem_boundBefore_append (hload a ha)
      [.join ⟨⟨model, n⟩, scope.bound, r'⟩]
    have hinner : ∀ a, (scope.inner r' ⟨model, n⟩).Names a → a ∈ boundBefore root (before ++
        [.load (scope.inner r' ⟨model, n⟩).chain] ++ [.join ⟨⟨model, n⟩, scope.bound, r'⟩]) := by
      rintro a (rfl | ⟨_, he⟩)
      · refine List.mem_cons_of_mem _ ?_
        rw [joinsOf, List.filterMap_append, List.map_append]
        exact List.mem_append_right _ List.mem_cons_self
      · cases he
        exact hjoin _ (.inl rfl)
    refine .cons ⟨_, _, rfl, List.getLast?_concat⟩ (.cons ⟨hload _ (.inl rfl), before, _, rfl⟩ ?_)
    refine (ihc hinner).append (ih fun a ha => ?_)
    exact mem_boundBefore_append (hjoin a ha) inner

/-- the chains are the ways to the blocks, and the next number is free after these -/
theorem Emits.chains_eq {s : Schema} (hs : s.Sound) {c : Coercions} {scope : Scope} {n k : Nat}
    {members : List Member} {ds : List Directive} (h : Emits s c scope n members ds k) :
    chainsOf ds = waysAll scope.chain n members ∧ k = n + (chainsOf ds).length := by
  induction h with
  | nil => exact ⟨rfl, rfl⟩
  | bare _ _ ih =>
    rw [waysAll_attribute]
    exact ih
  | filtered _ _ _ ih =>
    rw [waysAll_attribute]
    exact ih
  | @block scope n m k r r' model children rest inner others hr _ _ ihc ih =>
    obtain ⟨hinner, hm⟩ := ihc
    obtain ⟨hothers, hk⟩ := ih
    have hchain : (scope.inner r' ⟨model, n⟩).chain = scope.chain ++ [⟨r.name, ⟨model, n⟩⟩] := by
      rw [Scope.inner, hs.relationship_named hr]
    rw [chainsOf_block, waysAll_block]
    rw [hchain] at hinner ⊢
    refine ⟨?_, ?_⟩
    · rw [hinner, hothers, hm, hinner]
    · rw [List.length_cons, List.length_append]
      omega

/-- the alias at the end of a way from the root -/
def endOf (root : Alias) (way : List Hop) : Alias := (way.getLast?.map Hop.bound).getD root

/-- a join binds the last block of a way to the rows of its relationship, from the block before it
on the way or from the root -/
def Join.Extends (s : Schema) (root : Alias) (way : List Hop) (j : Join) : Prop :=
  ∃ front name, way = front ++ [⟨name, j.bound⟩] ∧ j.parent = endOf root front ∧
    s.relationship? j.parent.model name = some j.relationship

theorem Emits.joins_extend {s : Schema} (hs : s.Sound) {c : Coercions} {scope : Scope} {n k : Nat}
    {members : List Member} {ds : List Directive} (h : Emits s c scope n members ds k)
    {root : Alias} (hroot : endOf root scope.chain = scope.bound) :
    List.Forall₂ (Join.Extends s root) (chainsOf ds) (joinsOf ds) := by
  induction h with
  | nil => exact .nil
  | bare _ _ ih => exact ih hroot
  | filtered _ _ _ ih => exact ih hroot
  | @block scope n m k r r' model children rest inner others hr _ _ ihc ih =>
    have hend : endOf root (scope.inner r' ⟨model, n⟩).chain = ⟨model, n⟩ := by
      rw [Scope.inner, endOf, List.getLast?_concat]
      rfl
    rw [chainsOf_block, joinsOf_block]
    refine .cons ⟨scope.chain, r'.name, rfl, hroot.symm, ?_⟩
      (List.rel_append (ihc hend) (ih hroot))
    rw [hs.relationship_named hr]
    exact hr

theorem Emits.numbers_eq {s : Schema} {c : Coercions} {scope : Scope} {n k : Nat}
    {members : List Member} {ds : List Directive} (h : Emits s c scope n members ds k) :
    (joinsOf ds).map (·.bound.index) = List.range' n (k - n) ∧ n ≤ k := by
  induction h with
  | nil scope n => exact ⟨by rw [Nat.sub_self]; rfl, Nat.le_refl n⟩
  | bare _ _ ih => exact ih
  | filtered _ _ _ ih => exact ih
  | @block scope n m k r r' model children rest inner others _ _ _ ihc ih =>
    obtain ⟨hinner, hm⟩ := ihc
    obtain ⟨hothers, hk⟩ := ih
    refine ⟨?_, by omega⟩
    rw [joinsOf_block, List.map_cons, List.map_append, hinner, hothers]
    have hlen : k - n = (m - (n + 1)) + (k - m) + 1 := by omega
    have hmid : m = n + 1 + 1 * (m - (n + 1)) := by omega
    rw [hlen, List.range'_succ, ← List.range'_append, ← hmid]

/-- the front of a chain leads to a block, unless it is part of the way to the block around all -/
theorem Emits.front_mem {s : Schema} {c : Coercions} {scope : Scope} {n k : Nat}
    {members : List Member} {ds : List Directive} (h : Emits s c scope n members ds k)
    {chain front : List Hop} (hchain : chain ∈ chainsOf ds) (hfront : front <+: chain) :
    front <+: scope.chain ∨ front ∈ chainsOf ds := by
  induction h generalizing chain with
  | nil => cases hchain
  | bare _ _ ih => exact ih hchain hfront
  | filtered _ _ _ ih => exact ih hchain hfront
  | @block scope n m k r r' model children rest inner others _ _ _ ihc ih =>
    rw [chainsOf_block] at hchain ⊢
    -- the front of a chain from here ends here, or on the way to here
    have hhere : front <+: (scope.inner r' ⟨model, n⟩).chain → front <+: scope.chain ∨
        front ∈ (scope.inner r' ⟨model, n⟩).chain :: (chainsOf inner ++ chainsOf others) := by
      intro hf
      rcases List.prefix_concat_iff.mp hf with rfl | hf
      · exact .inr List.mem_cons_self
      · exact .inl hf
    rcases List.mem_cons.mp hchain with rfl | hchain
    · exact hhere hfront
    · rcases List.mem_append.mp hchain with hchain | hchain
      · rcases ihc hchain hfront with hf | hf
        · exact hhere hf
        · exact .inr (List.mem_cons_of_mem _ (List.mem_append_left _ hf))
      · rcases ih hchain hfront with hf | hf
        · exact .inl hf
        · exact .inr (List.mem_cons_of_mem _ (List.mem_append_right _ hf))

/-! ## plans -/

/-- what the engine relies on: one chain and one join for every block, and aliases with different
numbers that are used after they are bound -/
structure Plan.WellFormed (s : Schema) (q : Query) (p : Plan) : Prop where
  model : p.model = q.model
  root : p.root = ⟨q.model, 0⟩
  chains : p.chains = q.ways
  joins : List.Forall₂ (Join.Extends s p.root) p.chains p.joins
  numbers : p.joins.map (·.bound.index) = List.range' 1 q.ways.length
  distinct : (p.root :: p.joins.map Join.bound).Nodup
  fronts : ∀ chain ∈ p.chains, ∀ front, front <+: chain → front ≠ [] → front ∈ p.chains
  directives : ∀ before d after, p.directives = before ++ d :: after → d.Stands p.root before after

theorem nodup_of_numbers {root : Alias} {js : List Join} {n : Nat} (hroot : root.index = 0)
    (h : js.map (·.bound.index) = List.range' 1 n) : (root :: js.map Join.bound).Nodup := by
  have hindex : (root :: js.map Join.bound).map Alias.index = List.range' 0 (n + 1) := by
    rw [List.map_cons, List.map_map, hroot, List.range'_succ]
    exact congrArg _ h
  refine List.Nodup.of_map Alias.index ?_
  rw [hindex]
  exact List.nodup_range'

theorem Plan.wellFormed_of_ofQuery {s : Schema} (hs : s.Built) {c : Coercions} {q : Query}
    {p : Plan} (h : Plan.ofQuery s c q = .ok p) : p.WellFormed s q := by
  obtain ⟨ds, k, rfl, hds⟩ := emits_of_ofQuery h
  obtain ⟨hchains, hk⟩ := hds.chains_eq hs.sound
  obtain ⟨hnumbers, -⟩ := hds.numbers_eq
  have hlen : k - 1 = q.ways.length := by
    rw [hchains] at hk
    show k - 1 = (waysAll [] 1 q.children).length
    change k = 1 + (waysAll [] 1 q.children).length at hk
    omega
  rw [hlen] at hnumbers
  refine ⟨rfl, rfl, hchains, hds.joins_extend hs.sound rfl, hnumbers,
    nodup_of_numbers rfl hnumbers, ?_, ?_⟩
  · intro chain hchain front hfront hne
    rcases hds.front_mem hchain hfront with hf | hf
    · exact absurd (List.prefix_nil.mp hf) hne
    · exact hf
  · have hroot : ∀ a, (Scope.root q.model).Names a → a ∈ boundBefore ⟨q.model, 0⟩ [] := by
      rintro a (rfl | ⟨_, he⟩)
      · exact List.mem_cons_self
      · cases he
    exact hds.ordered hroot

namespace Samples

/-- two blocks for one relationship, the first for a class, with filters of all kinds -/
def tubesTwice : Query where
  model := "Sample"
  children := [
    .attribute ⟨"Sample", "id", .integer⟩ (some (.term ⟨.star, .gt, .integer 1⟩)),
    .relationship tubes "CryoTube"
      [.attribute ⟨"CryoTube", "temperature", .integer⟩ (some (.term ⟨.all, .lt, .integer 0⟩))],
    .relationship tubes "Tube"
      [.attribute ⟨"Tube", "type", .string⟩ (some (.term ⟨.any, .eq, .string "a"⟩))]]

def planTwice : Plan :=
  (Plan.ofQuery schema .standard tubesTwice).toOption.getD ⟨"", ⟨"", 0⟩, []⟩

theorem ofQuery_tubesTwice : Plan.ofQuery schema .standard tubesTwice = .ok planTwice := by cbv

theorem wellFormed_tubesTwice :
    schema.Built ∧ Plan.ofQuery schema .standard tubesTwice = .ok planTwice ∧
      planTwice.WellFormed schema tubesTwice :=
  ⟨built, ofQuery_tubesTwice, Plan.wellFormed_of_ofQuery built ofQuery_tubesTwice⟩

example : planTwice.chains = [[⟨"tubes", ⟨"CryoTube", 1⟩⟩], [⟨"tubes", ⟨"Tube", 2⟩⟩]] := by cbv

end Samples

end NestedQuery
