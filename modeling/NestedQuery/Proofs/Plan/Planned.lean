import NestedQuery.Plan.OfQuery
import NestedQuery.Proofs.Query.Resolved

/-!
# How the directives of a query come about

`Emits` follows the members of a block and says which directives each of them adds and which
numbers it takes, with one case for an attribute without a filter, one for a filter and one for a
block.  `Planned` does so for members whose names are resolved.  What a plan does is proved by
induction on these.

* `joinsOf`, `chainsOf`, `filtersOf`   the three kinds of directives in a list;
* `Emits`, `emits_of_ofQuery`          members of a block with their directives, for any query;
* `Planned`, `planned_of_ofQuery`      the same for a query that is resolved.
-/

namespace NestedQuery

/-! ## directives by kind -/

def Directive.join? : Directive → Option Join
  | join j => some j
  | _ => none

def Directive.chain? : Directive → Option (List Hop)
  | load chain => some chain
  | _ => none

def Directive.filter? : Directive → Option Predicate
  | filter p => some p
  | _ => none

def joinsOf (ds : List Directive) : List Join := ds.filterMap Directive.join?
def chainsOf (ds : List Directive) : List (List Hop) := ds.filterMap Directive.chain?
def filtersOf (ds : List Directive) : List Predicate := ds.filterMap Directive.filter?

theorem Plan.joins_eq (p : Plan) : p.joins = joinsOf p.directives := rfl

theorem filtersOf_filter (p : Predicate) (ds : List Directive) :
    filtersOf (.filter p :: ds) = p :: filtersOf ds := rfl

/-- the directives of a block: its chain and its join come before those of its members, and these
before those of the members after it -/
def blockDirectives (chain : List Hop) (j : Join) (inner others : List Directive) :
    List Directive :=
  .load chain :: .join j :: (inner ++ others)

theorem joinsOf_block (chain : List Hop) (j : Join) (inner others : List Directive) :
    joinsOf (blockDirectives chain j inner others) = j :: (joinsOf inner ++ joinsOf others) := by
  show j :: (inner ++ others).filterMap _ = _
  rw [List.filterMap_append]
  rfl

theorem chainsOf_block (chain : List Hop) (j : Join) (inner others : List Directive) :
    chainsOf (blockDirectives chain j inner others) =
      chain :: (chainsOf inner ++ chainsOf others) := by
  show chain :: (inner ++ others).filterMap _ = _
  rw [List.filterMap_append]
  rfl

theorem filtersOf_block (chain : List Hop) (j : Join) (inner others : List Directive) :
    filtersOf (blockDirectives chain j inner others) = filtersOf inner ++ filtersOf others := by
  show (inner ++ others).filterMap _ = _
  rw [List.filterMap_append]
  rfl

/-! ## members and their directives -/

/-- the directives of a block's members, with the first number that is free before and after; the
attributes and relationships are those of the schema -/
inductive Emits (s : Schema) (c : Coercions) :
    Scope → Nat → List Member → List Directive → Nat → Prop
  | nil (scope : Scope) (n : Nat) : Emits s c scope n [] [] n
  | bare {scope : Scope} {n k : Nat} {a a' : Attribute} {rest : List Member}
      {ds : List Directive} (ha : s.attribute? scope.bound.model a.name = some a')
      (hrest : Emits s c scope n rest ds k) : Emits s c scope n (.attribute a none :: rest) ds k
  | filtered {scope : Scope} {n k : Nat} {a a' : Attribute} {f : Filter} {p : Predicate}
      {rest : List Member} {ds : List Directive}
      (ha : s.attribute? scope.bound.model a.name = some a')
      (hp : scope.predicate c a' f = .ok p) (hrest : Emits s c scope n rest ds k) :
      Emits s c scope n (.attribute a (some f) :: rest) (.filter p :: ds) k
  | block {scope : Scope} {n m k : Nat} {r r' : Relationship} {model : String}
      {children rest : List Member} {inner others : List Directive}
      (hr : s.relationship? scope.bound.model r.name = some r')
      (hinner : Emits s c (scope.inner r' ⟨model, n⟩) (n + 1) children inner m)
      (hothers : Emits s c scope m rest others k) :
      Emits s c scope n (.relationship r model children :: rest)
        (blockDirectives (scope.inner r' ⟨model, n⟩).chain ⟨⟨model, n⟩, scope.bound, r'⟩ inner
          others) k

theorem emits_attribute {s : Schema} {c : Coercions} {scope : Scope} {n k : Nat} {a : Attribute}
    {filter : Option Filter} {rest : List Member} {first others : List Directive}
    (h : filterDirectives s c scope a filter = .ok first)
    (hrest : Emits s c scope n rest others k) :
    Emits s c scope n (.attribute a filter :: rest) (first ++ others) k := by
  obtain ⟨a', ha, hfirst⟩ := bind_eq_ok.mp h
  rw [Schema.attributeOf_ok_iff] at ha
  cases filter with
  | none =>
    cases hfirst
    exact .bare ha hrest
  | some f =>
    obtain ⟨p, hp, rfl⟩ := map_eq_ok.mp hfirst
    exact .filtered ha hp hrest

mutual

theorem emits_of_planMember {s : Schema} {c : Coercions} {scope : Scope} {n n' k : Nat} :
    ∀ {m : Member} {rest : List Member} {first others : List Directive},
      planMember s c scope n m = .ok (first, n') → Emits s c scope n' rest others k →
        Emits s c scope n (m :: rest) (first ++ others) k
  | .attribute a filter, rest, first, others, h, hrest => by
    obtain ⟨ds, hds, he⟩ := map_eq_ok.mp h
    cases he
    exact emits_attribute hds hrest
  | .relationship r model children, rest, first, others, h, hrest => by
    obtain ⟨r', hr, h⟩ := bind_eq_ok.mp h
    obtain ⟨⟨inner, m⟩, hinner, he⟩ := map_eq_ok.mp h
    cases he
    rw [Schema.relationshipOf_ok_iff] at hr
    exact .block hr (emits_of_planMembers hinner) hrest

theorem emits_of_planMembers {s : Schema} {c : Coercions} {scope : Scope} {n k : Nat} :
    ∀ {members : List Member} {ds : List Directive},
      planMembers s c scope n members = .ok (ds, k) → Emits s c scope n members ds k
  | [], ds, h => by
    cases h
    exact .nil scope n
  | m :: rest, ds, h => by
    obtain ⟨⟨first, n'⟩, hfirst, h⟩ := bind_eq_ok.mp h
    obtain ⟨⟨others, k'⟩, hothers, he⟩ := map_eq_ok.mp h
    cases he
    exact emits_of_planMember hfirst (emits_of_planMembers hothers)

end

/-- the scope of the root block -/
def Scope.root (model : String) : Scope := ⟨⟨model, 0⟩, [], none⟩

/-- the root has the number zero and no chain, and no relationship leads to it -/
theorem emits_of_ofQuery {s : Schema} {c : Coercions} {q : Query} {p : Plan}
    (h : Plan.ofQuery s c q = .ok p) :
    ∃ ds k, p = ⟨q.model, ⟨q.model, 0⟩, ds⟩ ∧ Emits s c (.root q.model) 1 q.children ds k := by
  obtain ⟨m, -, h⟩ := bind_eq_ok.mp h
  obtain ⟨⟨ds, k⟩, hds, he⟩ := map_eq_ok.mp h
  cases he
  exact ⟨ds, k, rfl, emits_of_planMembers hds⟩

/-! ## planned members -/

/-- the directives of a block's members whose names are resolved -/
inductive Planned (s : Schema) (c : Coercions) :
    Scope → Nat → List Member → List Directive → Nat → Prop
  | nil (scope : Scope) (n : Nat) : Planned s c scope n [] [] n
  | bare {scope : Scope} {n k : Nat} {a : Attribute} {rest : List Member} {ds : List Directive}
      (hrest : Planned s c scope n rest ds k) :
      Planned s c scope n (.attribute a none :: rest) ds k
  | filtered {scope : Scope} {n k : Nat} {a : Attribute} {f : Filter} {p : Predicate}
      {rest : List Member} {ds : List Directive} (hp : scope.predicate c a f = .ok p)
      (hrest : Planned s c scope n rest ds k) :
      Planned s c scope n (.attribute a (some f) :: rest) (.filter p :: ds) k
  | block {scope : Scope} {n m k : Nat} {r : Relationship} {model : String}
      {children rest : List Member} {inner others : List Directive}
      (hr : s.relationship? scope.bound.model r.name = some r)
      (hb : s.isVariantOf model r.target = true)
      (hinner : Planned s c (scope.inner r ⟨model, n⟩) (n + 1) children inner m)
      (hothers : Planned s c scope m rest others k) :
      Planned s c scope n (.relationship r model children :: rest)
        (blockDirectives (scope.inner r ⟨model, n⟩).chain ⟨⟨model, n⟩, scope.bound, r⟩ inner
          others) k

theorem Emits.planned {s : Schema} {c : Coercions} {scope : Scope} {n k : Nat}
    {members : List Member} {ds : List Directive} (h : Emits s c scope n members ds k)
    (hres : s.Resolves scope.bound.model members) : Planned s c scope n members ds k := by
  induction h with
  | nil scope n => exact .nil scope n
  | bare ha hrest ih =>
    cases hres with
    | attr _ _ hres => exact .bare (ih hres)
  | filtered ha hp hrest ih =>
    cases hres with
    | attr _ ha' hres =>
      cases ha.symm.trans ha'
      exact .filtered hp (ih hres)
  | block hr hinner hothers ihc ih =>
    cases hres with
    | block hr' hb hchildren hres =>
      cases hr.symm.trans hr'
      exact .block hr hb (ihc hchildren) (ih hres)

theorem planned_of_ofQuery {s : Schema} {c : Coercions} {q : Query} {p : Plan}
    (hq : q.Resolved s) (h : Plan.ofQuery s c q = .ok p) :
    ∃ ds k, p = ⟨q.model, ⟨q.model, 0⟩, ds⟩ ∧ Planned s c (.root q.model) 1 q.children ds k := by
  obtain ⟨ds, k, hp, hds⟩ := emits_of_ofQuery h
  exact ⟨ds, k, hp, hds.planned hq.members⟩

end NestedQuery
