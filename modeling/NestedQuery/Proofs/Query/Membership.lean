import NestedQuery.Proofs.Graph.Population
import NestedQuery.Proofs.Plan.Acceptance
import NestedQuery.Proofs.Plan.Alike

/-!
# Membership as a disjunction

A term `* in [v, w]` may be written `(* == v or * == w)`, and `any in [v, w]` may be written
`(any == v or any == w)`.  A query is accepted in both forms or in neither, and has one graph.

* `Filter.Expands`, `Query.Expands`   some memberships are written as disjunctions;
* `Comparison.truth_isIn_cons`        membership in a list, item by item;
* `Scope.Reads.or`                    readings of `*` and `any` distribute over disjunctions;
* `Predicate.Equivalent`              predicates with the same truth, or the same failure;
* `Query.submit_expanded`             queries and their expansions.

For `all` there is no such form: all rows may be of some of two types, and neither all of the one
nor all of the other.
-/

namespace NestedQuery

/-! ## expansions -/

/-- a term for each item of a list that is not empty, joined by `or` to the right -/
def Filter.equalsOneOf (selector : Selector) (v : Literal) : List Literal → Filter
  | [] => term ⟨selector, .eq, v⟩
  | w :: rest => joined .or (term ⟨selector, .eq, v⟩) (equalsOneOf selector w rest)

/-- some memberships are written as disjunctions -/
inductive Filter.Expands : Filter → Filter → Prop
  | refl (f : Filter) : Expands f f
  | membership {selector : Selector} (hs : selector ≠ .all) (v : Literal) (rest : List Literal) :
      Expands (term ⟨selector, .isIn, .list (v :: rest)⟩) (equalsOneOf selector v rest)
  | joined {left left' right right' : Filter} (op : Connective) (hl : Expands left left')
      (hr : Expands right right') : Expands (joined op left right) (joined op left' right')

/-- some memberships in the filters of members, and of members inside of them -/
inductive MembersExpand : List Member → List Member → Prop
  | nil : MembersExpand [] []
  | bare {rest rest' : List Member} (a : Attribute) (hrest : MembersExpand rest rest') :
      MembersExpand (.attribute a none :: rest) (.attribute a none :: rest')
  | filtered {f f' : Filter} {rest rest' : List Member} (a : Attribute) (hf : f.Expands f')
      (hrest : MembersExpand rest rest') :
      MembersExpand (.attribute a (some f) :: rest) (.attribute a (some f') :: rest')
  | block {children children' rest rest' : List Member} (r : Relationship) (model : String)
      (hchildren : MembersExpand children children') (hrest : MembersExpand rest rest') :
      MembersExpand (.relationship r model children :: rest)
        (.relationship r model children' :: rest')

structure Query.Expands (q q' : Query) : Prop where
  model : q.model = q'.model
  members : MembersExpand q.children q'.children

/-! ## membership item by item -/

namespace Comparison

theorem truth_eq_null (v : Value) : eq.truth .null v = none := by
  show (Value.null.compare? v).map eq.suits = none
  rw [Value.compare?_null_left]
  rfl

/-- equality with the first item or membership among the others; of a null both are unknown -/
theorem truth_isIn_cons (x v : Value) (rest : List Value) :
    isIn.truth x (.list (v :: rest)) =
      Truth.or (eq.truth x v) (isIn.truth x (.list rest)) := by
  cases x with
  | null =>
    rw [truth_eq_null]
    rfl
  | _ => rfl

theorem truth_isIn_singleton (x v : Value) : isIn.truth x (.list [v]) = eq.truth x v := by
  rw [truth_isIn_cons]
  cases x with
  | null =>
    rw [truth_eq_null]
    rfl
  | _ => rcases eq.truth _ v with _ | _ | _ <;> rfl

end Comparison

/-- some row makes a disjunction true exactly when some row makes one of its sides true -/
theorem Truth.any_or {α : Type} (rows : List α) (f g : α → Truth) :
    some (rows.any fun row => Truth.or (f row) (g row) == some true) =
      Truth.or (some (rows.any fun row => f row == some true))
        (some (rows.any fun row => g row == some true)) := by
  have hor (x y : Bool) : Truth.or (some x) (some y) = some (x || y) := by
    cases x <;> cases y <;> rfl
  rw [hor, Option.some.injEq, Bool.eq_iff_iff, Bool.or_eq_true, List.any_eq_true, List.any_eq_true,
    List.any_eq_true]
  simp only [beq_iff_eq, Truth.or_eq_true_iff, and_or_left, exists_or]

/-! ## literals item by item -/

section
variable {c : Coercions} {a : Attribute}

theorem literalValue_list_eq_ok_iff {items : List Literal} {x : Value} :
    literalValue c a (.list items) = .ok x ↔
      ∃ ys, c.coerceAll a (Literal.values items) = .ok ys ∧ a.type.acceptsAll ys = true ∧
        x = .list ys := by
  have hcoerce : c.coerce a (Literal.list items).value =
      (c.coerceAll a (Literal.values items)).map .list := by
    rw [Literal.value, Coercions.coerce]
  rw [literalValue_eq_ok_iff, hcoerce, map_eq_ok]
  constructor
  · rintro ⟨⟨ys, hys, rfl⟩, haccepts⟩
    exact ⟨ys, hys, haccepts, rfl⟩
  · rintro ⟨ys, hys, haccepts, rfl⟩
    exact ⟨⟨ys, hys, rfl⟩, haccepts⟩

/-- a list suits an attribute if its first item does and the list of the others does -/
theorem literalValue_cons_eq_ok_iff {v : Literal} {rest : List Literal} {x : Value} :
    literalValue c a (.list (v :: rest)) = .ok x ↔
      ∃ y ys, literalValue c a v = .ok y ∧ literalValue c a (.list rest) = .ok (.list ys) ∧
        x = .list (y :: ys) := by
  rw [literalValue_list_eq_ok_iff, Literal.values, Coercions.coerceAll]
  constructor
  · rintro ⟨zs, hzs, haccepts, rfl⟩
    obtain ⟨y, hy, hzs⟩ := bind_eq_ok.mp hzs
    obtain ⟨ys, hys, rfl⟩ := map_eq_ok.mp hzs
    obtain ⟨hay, hays⟩ := Bool.and_eq_true_iff.mp haccepts
    exact ⟨y, ys, literalValue_eq_ok_iff.mpr ⟨hy, hay⟩,
      literalValue_list_eq_ok_iff.mpr ⟨ys, hys, hays, rfl⟩, rfl⟩
  · rintro ⟨y, ys, hv, hrest, rfl⟩
    obtain ⟨hy, hay⟩ := literalValue_eq_ok_iff.mp hv
    obtain ⟨zs, hys, hays, he⟩ := literalValue_list_eq_ok_iff.mp hrest
    cases he
    refine ⟨y :: ys, ?_, Bool.and_eq_true_iff.mpr ⟨hay, hays⟩, rfl⟩
    rw [hy, bind_ok, hys, map_ok]

theorem literalValue_nil : literalValue c a (.list []) = .ok (.list []) := rfl

end

/-! ## predicates with one truth -/

/-- whatever they are evaluated on, two predicates have the same truth or fail alike -/
def Predicate.Equivalent (p p' : Predicate) : Prop :=
  ∀ (st : Store) (b : Binding) (related : Option StoredRow),
    p.truth st b related = p'.truth st b related

theorem Predicate.Equivalent.refl (p : Predicate) : p.Equivalent p := fun _ _ _ => rfl

theorem Predicate.Equivalent.trans {p p' p'' : Predicate} (h : p.Equivalent p')
    (h' : p'.Equivalent p'') : p.Equivalent p'' :=
  fun st b related => (h st b related).trans (h' st b related)

theorem Predicate.Equivalent.join {l l' r r' : Predicate} (hl : l.Equivalent l')
    (hr : r.Equivalent r') (op : Connective) :
    (Scope.joinPredicates op l r).Equivalent (Scope.joinPredicates op l' r') := by
  intro st b related
  rw [Scope.truth_joinPredicates, Scope.truth_joinPredicates, hl st b related, hr st b related]

namespace Scope
variable {scope : Scope} {c : Coercions} {a : Attribute} {selector : Selector}

/-- the readings of `*` and `any` depend on the truth of a comparison only -/
theorem Reads.congr {read : Comparison → Value → Predicate} (h : scope.Reads a selector read)
    (hs : selector ≠ .all) {op op' : Comparison} {v v' : Value}
    (ht : ∀ x, op.truth x v = op'.truth x v') : (read op v).Equivalent (read op' v') := by
  intro st b related
  cases h with
  | star h => simp only [truth_own, ht]
  | any h hr => simp only [truth_existing, ht]
  | all h hr => exact absurd rfl hs

/-- the readings of `*` and `any` distribute over disjunctions -/
theorem Reads.or {read : Comparison → Value → Predicate} (h : scope.Reads a selector read)
    (hs : selector ≠ .all) {op op₁ op₂ : Comparison} {v v₁ v₂ : Value}
    (ht : ∀ x, op.truth x v = Truth.or (op₁.truth x v₁) (op₂.truth x v₂)) :
    (read op v).Equivalent (joinPredicates .or (read op₁ v₁) (read op₂ v₂)) := by
  intro st b related
  rw [truth_joinPredicates]
  cases h with
  | star h =>
    rw [truth_own, truth_own, truth_own]
    cases b.row scope.bound with
    | error e => rfl
    | ok row => exact congrArg Except.ok (ht _)
  | @any r parent h hr =>
    rw [truth_existing, truth_existing, truth_existing]
    cases st.relatedTo b parent r r.target with
    | error e => rfl
    | ok rows =>
      simp only [map_ok, bind_ok, ht]
      exact congrArg Except.ok (Truth.any_or rows _ _)
  | all h hr => exact absurd rfl hs

/-! ## planned expansions -/

theorem termPredicate_isIn_singleton (hs : selector ≠ .all) (v : Literal) :
    SameOutcome Predicate.Equivalent (scope.termPredicate c a ⟨selector, .isIn, .list [v]⟩)
      (scope.termPredicate c a ⟨selector, .eq, v⟩) := by
  refine sameOutcome_of_exists (fun p hp => ?_) fun p hp => ?_
  · obtain ⟨x, read, hx, hread, rfl⟩ := termPredicate_eq_ok_iff.mp hp
    obtain ⟨y, ys, hy, hys, rfl⟩ := literalValue_cons_eq_ok_iff.mp hx
    cases hys
    exact ⟨read .eq y, termPredicate_eq_ok_iff.mpr ⟨y, read, hy, hread, rfl⟩,
      hread.congr hs fun x => Comparison.truth_isIn_singleton x y⟩
  · obtain ⟨y, read, hy, hread, -⟩ := termPredicate_eq_ok_iff.mp hp
    have hx := literalValue_cons_eq_ok_iff.mpr ⟨y, [], hy, literalValue_nil, rfl⟩
    exact ⟨_, termPredicate_eq_ok_iff.mpr ⟨_, read, hx, hread, rfl⟩⟩

/-- membership is planned as equality with the first item or membership among the others -/
theorem termPredicate_isIn_cons (hs : selector ≠ .all) (v : Literal) (rest : List Literal) :
    SameOutcome Predicate.Equivalent
      (scope.termPredicate c a ⟨selector, .isIn, .list (v :: rest)⟩)
      ((scope.termPredicate c a ⟨selector, .eq, v⟩).bind fun l =>
        (scope.termPredicate c a ⟨selector, .isIn, .list rest⟩).map (joinPredicates .or l)) := by
  refine sameOutcome_of_exists (fun p hp => ?_) fun p hp => ?_
  · obtain ⟨x, read, hx, hread, rfl⟩ := termPredicate_eq_ok_iff.mp hp
    obtain ⟨y, ys, hy, hys, rfl⟩ := literalValue_cons_eq_ok_iff.mp hx
    have hl : scope.termPredicate c a ⟨selector, .eq, v⟩ = .ok (read .eq y) :=
      termPredicate_eq_ok_iff.mpr ⟨y, read, hy, hread, rfl⟩
    have hr : scope.termPredicate c a ⟨selector, .isIn, .list rest⟩ =
        .ok (read .isIn (.list ys)) :=
      termPredicate_eq_ok_iff.mpr ⟨.list ys, read, hys, hread, rfl⟩
    refine ⟨joinPredicates .or (read .eq y) (read .isIn (.list ys)), ?_, ?_⟩
    · rw [hl, bind_ok, hr, map_ok]
    · exact hread.or hs fun x => Comparison.truth_isIn_cons x y ys
  · obtain ⟨l, hl, hp⟩ := bind_eq_ok.mp hp
    obtain ⟨r, hr, -⟩ := map_eq_ok.mp hp
    obtain ⟨y, read, hy, hread, -⟩ := termPredicate_eq_ok_iff.mp hl
    obtain ⟨z, -, hz, -, -⟩ := termPredicate_eq_ok_iff.mp hr
    obtain ⟨ys, -, -, rfl⟩ := literalValue_list_eq_ok_iff.mp hz
    have hx := literalValue_cons_eq_ok_iff.mpr ⟨y, ys, hy, hz, rfl⟩
    exact ⟨_, termPredicate_eq_ok_iff.mpr ⟨_, read, hx, hread, rfl⟩⟩

theorem predicate_equalsOneOf (hs : selector ≠ .all) (v : Literal) (rest : List Literal) :
    SameOutcome Predicate.Equivalent
      (scope.termPredicate c a ⟨selector, .isIn, .list (v :: rest)⟩)
      (scope.predicate c a (Filter.equalsOneOf selector v rest)) := by
  induction rest generalizing v with
  | nil => exact termPredicate_isIn_singleton hs v
  | cons w rest ih =>
    -- the list of the others is not empty, so that it has a disjunction of its own
    refine (termPredicate_isIn_cons hs v (w :: rest)).trans ?_ fun _ _ _ => .trans
    refine (sameOutcome_refl Predicate.Equivalent.refl _).bind fun l l' hl => ?_
    exact (ih w).map fun r r' hr => hl.join hr .or

/-- a filter and its expansion are planned with the same truth, or both are refused -/
theorem predicate_expanded {f f' : Filter} (h : f.Expands f') :
    SameOutcome Predicate.Equivalent (scope.predicate c a f) (scope.predicate c a f') := by
  induction h with
  | refl f => exact sameOutcome_refl Predicate.Equivalent.refl _
  | membership hs v rest => exact predicate_equalsOneOf hs v rest
  | joined op _ _ ihl ihr => exact ihl.bind fun l l' hl => ihr.map fun r r' hr => hl.join hr op

end Scope

/-! ## queries -/

section
variable {s : Schema} {c : Coercions}

/-- predicates at the same places have the same truth -/
theorem appends_equivalent : Appends (List.Forall₂ Predicate.Equivalent) :=
  ⟨fun _ => List.forall₂_same.mpr fun p _ => .refl p, fun h ho => List.rel_append h ho⟩

theorem MembersExpand.planMembers {members members' : List Member}
    (h : MembersExpand members members') (scope : Scope) (n : Nat) :
    SameOutcome (DirectivesAlike (List.Forall₂ Predicate.Equivalent))
      (planMembers s c scope n members) (planMembers s c scope n members') := by
  induction h generalizing scope n with
  | nil => exact planMembers_refl appends_equivalent []
  | bare a _ ih => exact planMembers_tail_congr appends_equivalent _ (ih scope)
  | filtered a hf _ ih =>
    refine planMembers_cons_congr appends_equivalent (planMember_filter_congr a fun a' => ?_)
      (ih scope)
    exact (Scope.predicate_expanded hf).mono fun p p' hp => .cons hp .nil
  | block r model _ _ ihc ih =>
    exact planMembers_cons_congr appends_equivalent (planMember_block_congr r model ihc)
      (ih scope)

theorem Query.Expands.ofQuery {q q' : Query} (h : q.Expands q') :
    SameOutcome (Plan.Alike (List.Forall₂ Predicate.Equivalent)) (Plan.ofQuery s c q)
      (Plan.ofQuery s c q') :=
  Plan.ofQuery_congr h.model h.members.planMembers

end

/-! ## carrying out -/

namespace Store
variable {st : Store}

theorem filter_congr {p p' : Predicate} (h : p.Equivalent p') (bs : List Binding) :
    st.filter p bs = st.filter p' bs := by
  induction bs with
  | nil => rfl
  | cons b rest ih => rw [filter, filter, h st b none, ih]

theorem filterAll_congr {ps ps' : List Predicate} (h : List.Forall₂ Predicate.Equivalent ps ps')
    (bs : List Binding) : st.filterAll ps bs = st.filterAll ps' bs := by
  induction h generalizing bs with
  | nil => rfl
  | cons hp _ ih =>
    rw [filterAll, filterAll, filter_congr hp]
    exact congrArg _ (funext ih)

theorem bindings_congr {p p' : Plan} (h : p.Alike (List.Forall₂ Predicate.Equivalent) p') :
    st.bindings p = st.bindings p' := by
  rw [bindings, bindings, h.root, h.joins, funext (filterAll_congr h.filters)]

end Store

/-- a query and its expansion are accepted or refused together, by any schema, and if they are
accepted, any store has one answer for both.  The answer is a graph where the names of the query
are those of the schema. -/
theorem Query.submit_expanded {q q' : Query} (h : q.Expands q') (s : Schema) (c : Coercions)
    (st : Store) :
    ((∃ p, Plan.ofQuery s c q = .ok p) ↔ ∃ p', Plan.ofQuery s c q' = .ok p') ∧
      (∀ p p', Plan.ofQuery s c q = .ok p → Plan.ofQuery s c q' = .ok p' →
        st.submit p = st.submit p') ∧
      (st.schema.Built → q.Resolved st.schema → ∀ p p', Plan.ofQuery st.schema c q = .ok p →
        Plan.ofQuery st.schema c q' = .ok p' →
          ∃ g, st.submit p = .ok g ∧ st.submit p' = .ok g) := by
  have hsubmit (s : Schema) (p p' : Plan) (hp : Plan.ofQuery s c q = .ok p)
      (hp' : Plan.ofQuery s c q' = .ok p') : st.submit p = st.submit p' := by
    have halike := h.ofQuery (s := s) (c := c)
    rw [hp, hp'] at halike
    cases halike with
    | ok halike => exact Store.submit_congr halike (Store.bindings_congr halike)
  refine ⟨h.ofQuery.exists_ok_iff, hsubmit s, fun hs hq p p' hp hp' => ?_⟩
  obtain ⟨g, slot, hg, -⟩ := Query.exists_populates hs.sound hq hp
  exact ⟨g, hg, (hsubmit st.schema p p' hp hp').symm.trans hg⟩

namespace Ring

def idAttribute : Attribute := ⟨"Step", "id", .string⟩

/-- a filter for steps, and one for the steps before the one after them -/
def withFilters (own inner : Filter) : Query where
  model := "Step"
  children := [
    .attribute idAttribute (some own),
    .relationship ⟨"Step", "next", "Step", .one, "after", "id"⟩ "Step"
      [.relationship ⟨"Step", "earlier", "Step", .many, "id", "after"⟩ "Step"
        [.attribute idAttribute (some inner)]]]

def oneOfTwo : Query :=
  withFilters (.term ⟨.star, .isIn, .list [.string "a", .string "b"]⟩)
    (.term ⟨.any, .isIn, .list [.string "b", .string "a"]⟩)

def eitherOfTwo : Query :=
  withFilters (.equalsOneOf .star (.string "a") [.string "b"])
    (.equalsOneOf .any (.string "b") [.string "a"])

def planOneOfTwo : Plan :=
  (Plan.ofQuery schema .standard oneOfTwo).toOption.getD ⟨"", ⟨"", 0⟩, []⟩

def planEitherOfTwo : Plan :=
  (Plan.ofQuery schema .standard eitherOfTwo).toOption.getD ⟨"", ⟨"", 0⟩, []⟩

theorem expands_oneOfTwo : oneOfTwo.Expands eitherOfTwo :=
  ⟨rfl, .filtered _ (.membership (by decide) _ _)
    (.block _ _ (.block _ _ (.filtered _ (.membership (by decide) _ _) .nil) .nil) .nil)⟩

def oneOfTwoText : String :=
  "query Step \x7b\n id [* in [\"a\", \"b\"]]\n next \x7b\n earlier \x7b\n" ++
    " id [any in [\"b\", \"a\"]]\n \x7d\n \x7d\n \x7d"

theorem ofTokens_oneOfTwo :
    Query.ofTokens store.schema (tokenize oneOfTwoText) = .ok oneOfTwo := by cbv

theorem ofQuery_oneOfTwo : Plan.ofQuery store.schema .standard oneOfTwo = .ok planOneOfTwo := by cbv

theorem ofQuery_eitherOfTwo :
    Plan.ofQuery store.schema .standard eitherOfTwo = .ok planEitherOfTwo := by cbv

theorem submit_expanded_oneOfTwo :
    oneOfTwo.Expands eitherOfTwo ∧
      Plan.ofQuery store.schema .standard oneOfTwo = .ok planOneOfTwo ∧
      Plan.ofQuery store.schema .standard eitherOfTwo = .ok planEitherOfTwo ∧
      ∃ g, store.submit planOneOfTwo = .ok g ∧ store.submit planEitherOfTwo = .ok g := by
  obtain ⟨-, -, h⟩ := Query.submit_expanded expands_oneOfTwo store.schema .standard store
  exact ⟨expands_oneOfTwo, ofQuery_oneOfTwo, ofQuery_eitherOfTwo,
    h built_store (Query.resolved_of_ofTokens built_store.sound ofTokens_oneOfTwo) _ _
      ofQuery_oneOfTwo ofQuery_eitherOfTwo⟩

end Ring

end NestedQuery
