import NestedQuery.Graph.Loading
import NestedQuery.Proofs.Plan.Planned

/-!
# Plans that differ in their filters only

Two queries with the same blocks are planned with the same joins and the same chains.  Their filters
may differ, in a way that lists of filters keep when they are appended.  Such plans are carried out
alike if they keep the same bindings.

* `Appends`                  a relation of lists of filters that appending keeps;
* `DirectivesAlike`, `Plan.Alike`   the same joins and chains, and related filters;
* `planMembers_cons_congr`, `planMember_filter_congr`, `planMember_block_congr`,
  `Plan.ofQuery_congr`       members and queries that are planned alike;
* `Store.submit_congr`       plans with the same bindings have the same graph.
-/

namespace NestedQuery

/-! ## directives -/

theorem joinsOf_append (ds others : List Directive) :
    joinsOf (ds ++ others) = joinsOf ds ++ joinsOf others := List.filterMap_append

theorem chainsOf_append (ds others : List Directive) :
    chainsOf (ds ++ others) = chainsOf ds ++ chainsOf others := List.filterMap_append

theorem filtersOf_append (ds others : List Directive) :
    filtersOf (ds ++ others) = filtersOf ds ++ filtersOf others := List.filterMap_append

/-- a relation of lists of filters that appending keeps -/
structure Appends (R : List Predicate → List Predicate → Prop) : Prop where
  refl : ∀ ps, R ps ps
  append : ∀ {ps ps' others others' : List Predicate}, R ps ps' → R others others' →
    R (ps ++ others) (ps' ++ others')

/-- directives with the same joins and chains and with related filters, before the same next
number -/
structure DirectivesAlike (R : List Predicate → List Predicate → Prop)
    (x y : List Directive × Nat) : Prop where
  joins : joinsOf x.1 = joinsOf y.1
  chains : chainsOf x.1 = chainsOf y.1
  filters : R (filtersOf x.1) (filtersOf y.1)
  next : x.2 = y.2

/-- plans with the same joins and chains and with related filters -/
structure Plan.Alike (R : List Predicate → List Predicate → Prop) (p p' : Plan) : Prop where
  model : p.model = p'.model
  root : p.root = p'.root
  joins : p.joins = p'.joins
  chains : p.chains = p'.chains
  filters : R p.filters p'.filters

section
variable {R : List Predicate → List Predicate → Prop} (hR : Appends R)
include hR

theorem DirectivesAlike.refl (x : List Directive × Nat) : DirectivesAlike R x x :=
  ⟨rfl, rfl, hR.refl _, rfl⟩

theorem DirectivesAlike.append {first first' others others' : List Directive} {n n' k k' : Nat}
    (h : DirectivesAlike R (first, n) (first', n'))
    (ho : DirectivesAlike R (others, k) (others', k')) :
    DirectivesAlike R (first ++ others, k) (first' ++ others', k') := by
  refine ⟨?_, ?_, ?_, ho.next⟩
  · rw [joinsOf_append, joinsOf_append, h.joins, ho.joins]
  · rw [chainsOf_append, chainsOf_append, h.chains, ho.chains]
  · rw [filtersOf_append, filtersOf_append]
    exact hR.append h.filters ho.filters

/-! ## planning -/

variable {s : Schema} {c : Coercions} {scope : Scope} {n : Nat}

theorem planMembers_cons_congr {m m' : Member} {ms ms' : List Member}
    (hm : SameOutcome (DirectivesAlike R) (planMember s c scope n m) (planMember s c scope n m'))
    (hms : ∀ k, SameOutcome (DirectivesAlike R) (planMembers s c scope k ms)
      (planMembers s c scope k ms')) :
    SameOutcome (DirectivesAlike R) (planMembers s c scope n (m :: ms))
      (planMembers s c scope n (m' :: ms')) := by
  refine hm.bind fun (first, k) (first', k') hfirst => ?_
  cases hfirst.next
  exact (hms k).map fun _ _ hothers => .append hR hfirst hothers

theorem planMembers_tail_congr (m : Member) {ms ms' : List Member}
    (h : ∀ k, SameOutcome (DirectivesAlike R) (planMembers s c scope k ms)
      (planMembers s c scope k ms')) :
    SameOutcome (DirectivesAlike R) (planMembers s c scope n (m :: ms))
      (planMembers s c scope n (m :: ms')) :=
  planMembers_cons_congr hR (sameOutcome_refl (.refl hR) _) h

omit hR in
theorem planMember_filter_congr {f f' : Filter} (a : Attribute)
    (h : ∀ a', SameOutcome (fun p p' => R [p] [p']) (scope.predicate c a' f)
      (scope.predicate c a' f')) :
    SameOutcome (DirectivesAlike R) (planMember s c scope n (.attribute a (some f)))
      (planMember s c scope n (.attribute a (some f'))) := by
  rw [planMember, planMember, filterDirectives, filterDirectives]
  cases s.attributeOf scope.bound.model a.name with
  | error e => exact .error e e
  | ok a' =>
    refine SameOutcome.map (R := fun ds ds' => DirectivesAlike R (ds, n) (ds', n)) ?_ fun _ _ => id
    exact (h a').map fun p p' hp => ⟨rfl, rfl, hp, rfl⟩

omit hR in
theorem planMember_block_congr {children children' : List Member} (r : Relationship)
    (model : String)
    (h : ∀ inner k, SameOutcome (DirectivesAlike R) (planMembers s c inner k children)
      (planMembers s c inner k children')) :
    SameOutcome (DirectivesAlike R) (planMember s c scope n (.relationship r model children))
      (planMember s c scope n (.relationship r model children')) := by
  cases hr : s.relationshipOf scope.bound.model r.name with
  | error e =>
    rw [planMember, planMember, hr]
    exact .error e e
  | ok r' =>
    rw [planMember, planMember, hr, bind_ok, bind_ok]
    refine (h _ _).map fun _ _ hinner => ?_
    exact ⟨congrArg (_ :: ·) hinner.joins, congrArg (_ :: ·) hinner.chains, hinner.filters,
      hinner.next⟩

theorem planMembers_refl (ms : List Member) :
    SameOutcome (DirectivesAlike R) (planMembers s c scope n ms) (planMembers s c scope n ms) :=
  sameOutcome_refl (.refl hR) _

omit hR in
theorem Plan.ofQuery_congr {q q' : Query} (hmodel : q.model = q'.model)
    (h : ∀ scope n, SameOutcome (DirectivesAlike R) (planMembers s c scope n q.children)
      (planMembers s c scope n q'.children)) :
    SameOutcome (Plan.Alike R) (ofQuery s c q) (ofQuery s c q') := by
  rw [ofQuery, ofQuery, ← hmodel]
  cases s.modelNamed q.model with
  | error e => exact .error e e
  | ok m =>
    exact (h _ 1).map fun _ _ hds => ⟨rfl, rfl, hds.joins, hds.chains, hds.filters⟩

end

/-! ## carrying out -/

theorem Loading.addBindings_congr {s : Schema} {p p' : Plan} (hroot : p.root = p'.root)
    (hchains : p.chains = p'.chains) (l : Loading) (bs : List Binding) :
    l.addBindings s p bs = l.addBindings s p' bs := by
  induction bs generalizing l with
  | nil => rfl
  | cons b rest ih =>
    rw [addBindings, addBindings, addBinding, addBinding, hroot, hchains]
    exact congrArg _ (funext fun l => ih l)

/-- plans that keep the same bindings have the same graph -/
theorem Store.submit_congr {R : List Predicate → List Predicate → Prop} {st : Store}
    {p p' : Plan} (h : p.Alike R p') (hbindings : st.bindings p = st.bindings p') :
    st.submit p = st.submit p' := by
  have hload : Loading.empty.addBindings st.schema p = Loading.empty.addBindings st.schema p' :=
    funext fun bs => Loading.addBindings_congr h.root h.chains _ bs
  rw [submit, submit, h.model, h.joins, hbindings, hload]

end NestedQuery
