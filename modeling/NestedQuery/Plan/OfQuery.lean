import NestedQuery.Coercion.Basic
import NestedQuery.Plan.Basic
import NestedQuery.Query.Tree
import NestedQuery.Schema.Lookup

/-!
# From queries to plans

Every block of a query gets an alias, numbered in the order of the text.  A block for a
relationship asks for the chain of relationships from the root to be loaded and for a join; an
attribute with a filter asks for a predicate, in which

    *   op v    compares the column of the block's own row;
    any op v    asks for a related row whose column satisfies `op v`;
    all op v    asks for no related row whose column satisfies the negation of `op v`.

* `Scope`              what the members of a block are planned with;
* `Scope.predicate`    the predicate of a filter;
* `planMembers`        the directives of a block's members;
* `Plan.ofQuery`       the plan of a query.
-/

namespace NestedQuery

/-- a block of a query as its members see it -/
structure Scope where
  /-- the alias of the block -/
  bound : Alias
  /-- the relationships from the root to the block -/
  chain : List Hop
  /-- the relationship of the block, with the model of the block as its target, and the alias
  that it starts from; the root block has none -/
  enclosing : Option (Relationship × Alias)

/-! ## filters -/

/-- the kind of a value, and of a list the kind of its first item -/
def foundKind : Value → String
  | .list [] => "list"
  | .list (first :: _) => first.kind
  | value => value.kind

/-- a literal brought to the type of an attribute, which has to accept the result -/
def literalValue (c : Coercions) (a : Attribute) (literal : Literal) : Except Error Value :=
  (c.coerce a literal.value).bind fun value =>
    if a.type.accepts value then .ok value else .error (.typeMismatch a (foundKind value))

namespace Scope

/-- a comparison of the block's own row, which is not one of many -/
def ownPredicate (scope : Scope) (a : Attribute) (op : Comparison) (value : Value) :
    Except Error Predicate :=
  let compared := Predicate.compare (.bound scope.bound a.name) op value
  match scope.enclosing with
  | none => .ok compared
  | some (r, _) =>
    match r.cardinality with
    | .one => .ok compared
    | .many => .error (.misplacedSelector .star (.toMany r.name))

/-- the relationship to many rows that a quantified selector ranges over -/
def quantified (scope : Scope) (selector : Selector) : Except Error (Relationship × Alias) :=
  match scope.enclosing with
  | none => .error (.misplacedSelector selector (.root scope.bound.model))
  | some (r, parent) =>
    match r.cardinality with
    | .one => .error (.misplacedSelector selector (.toOne r.name))
    | .many => .ok (r, parent)

/-- some related row satisfies a comparison -/
def existing (parent : Alias) (r : Relationship) (a : Attribute) (op : Comparison)
    (value : Value) : Predicate :=
  .exist parent r (.compare (.related a.name) op value)

def termPredicate (scope : Scope) (c : Coercions) (a : Attribute) (t : Term) :
    Except Error Predicate :=
  (literalValue c a t.literal).bind fun value =>
    let op := t.operator.comparison
    match t.selector with
    | .star => scope.ownPredicate a op value
    | .any => (scope.quantified .any).map fun (r, parent) => existing parent r a op value
    | .all =>
      (scope.quantified .all).map fun (r, parent) => .not (existing parent r a op.negate value)

def joinPredicates : Connective → Predicate → Predicate → Predicate
  | .and => .and
  | .or => .or

def predicate (scope : Scope) (c : Coercions) (a : Attribute) : Filter → Except Error Predicate
  | .term t => scope.termPredicate c a t
  | .joined op left right =>
    (scope.predicate c a left).bind fun l =>
      (scope.predicate c a right).map fun r => joinPredicates op l r

/-- the scope of a block inside of this one -/
def inner (scope : Scope) (r : Relationship) (bound : Alias) : Scope where
  bound := bound
  chain := scope.chain ++ [⟨r.name, bound⟩]
  enclosing := some ({ r with target := bound.model }, scope.bound)

end Scope

/-! ## members -/

/-- the directive of an attribute with a filter -/
def filterDirectives (s : Schema) (c : Coercions) (scope : Scope) (a : Attribute)
    (filter : Option Filter) : Except Error (List Directive) :=
  (s.attributeOf scope.bound.model a.name).bind fun a =>
    match filter with
    | none => .ok []
    | some f => (scope.predicate c a f).map fun p => [.filter p]

mutual

/-- the directives of a member, and the next number for an alias -/
def planMember (s : Schema) (c : Coercions) (scope : Scope) (number : Nat) :
    Member → Except Error (List Directive × Nat)
  | .attribute a filter => (filterDirectives s c scope a filter).map fun ds => (ds, number)
  | .relationship r model children =>
    (s.relationshipOf scope.bound.model r.name).bind fun r =>
      let bound : Alias := ⟨model, number⟩
      let inner := scope.inner r bound
      (planMembers s c inner (number + 1) children).map fun (ds, number) =>
        (.load inner.chain :: .join ⟨bound, scope.bound, r⟩ :: ds, number)

/-- the directives of members in their order, and the next number for an alias -/
def planMembers (s : Schema) (c : Coercions) (scope : Scope) (number : Nat) :
    List Member → Except Error (List Directive × Nat)
  | [] => .ok ([], number)
  | m :: rest =>
    (planMember s c scope number m).bind fun (first, number) =>
      (planMembers s c scope number rest).map fun (others, number) => (first ++ others, number)

end

/-- the plan of a query, whose root has the number zero -/
def Plan.ofQuery (s : Schema) (c : Coercions) (q : Query) : Except Error Plan :=
  (s.modelNamed q.model).bind fun _ =>
    let root : Alias := ⟨q.model, 0⟩
    (planMembers s c ⟨root, [], none⟩ 1 q.children).map fun (ds, _) => ⟨q.model, root, ds⟩

end NestedQuery
