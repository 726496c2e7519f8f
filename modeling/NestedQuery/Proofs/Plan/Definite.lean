import NestedQuery.Proofs.Coercion.Standard
import NestedQuery.Proofs.Plan.Acceptance
import NestedQuery.Proofs.Store.Filtering
import NestedQuery.Proofs.Value.Ordering

/-!
# Comparisons that are never unknown

The literal of a planned term suits the type of the attribute.  For types whose values all have one
order, doubles, enumerations and custom types apart, it then compares with every value that the
type accepts, so that only a null makes such a comparison unknown.

* `AttributeType.orderKind?`     the order of all values that a type accepts;
* `Term.WellFormed`              a list of scalars after `in`, and a scalar after any operator;
* `Predicate.comparisons`        the comparisons in a predicate, with their values;
* `Comparison.exists_truth`      a comparison with an accepted literal is true or false;
* `Scope.comparisons_definite`   so is every comparison in a planned filter.
-/

namespace NestedQuery

/-! ## types with an order -/

/-- the order that all values of a type have -/
def AttributeType.orderKind? : AttributeType → Option OrderKind
  | integer => some .number
  | decimal => some .number
  | string => some .string
  | boolean => some .boolean
  | date => some .date
  | datetime => some .datetime
  | time => some .time
  | uuid => some .uuid
  | float => none
  | enum _ => none
  | custom _ => none

theorem AttributeType.place?_of_acceptsScalar {type : AttributeType} {k : OrderKind}
    (hk : type.orderKind? = some k) {x : Value} (hx : type.acceptsScalar x = true) :
    ∃ content, x.place? = some ⟨k, content⟩ := by
  cases type with
  | float | enum _ | custom _ => cases hk
  | decimal =>
    cases hk
    cases x with
    | decimal d => exact ⟨d, rfl⟩
    | integer n => exact ⟨Decimal.ofInt64 n, rfl⟩
    | _ => cases hx
  | integer | string | boolean | date | datetime | time | uuid =>
    cases hk
    cases x <;> first | exact ⟨_, rfl⟩ | cases hx

/-- two values that such a type accepts have an order -/
theorem AttributeType.exists_compare? {type : AttributeType} {k : OrderKind}
    (hk : type.orderKind? = some k) {x y : Value} (hx : type.acceptsScalar x = true)
    (hy : type.acceptsScalar y = true) : ∃ o, x.compare? y = some o := by
  obtain ⟨p, hp⟩ := place?_of_acceptsScalar hk hx
  obtain ⟨q, hq⟩ := place?_of_acceptsScalar hk hy
  exact ⟨_, Value.compare?_of_place hp hq⟩

/-! ## literals -/

/-- a list stands after `in` only, and its items are scalars -/
def Term.WellFormed (t : Term) : Prop :=
  ∀ items, t.literal = .list items → t.operator = .isIn ∧ ∀ i ∈ items, i.isList = false

theorem Literal.asList?_value {l : Literal} (h : l.isList = false) : l.value.asList? = none := by
  cases l with
  | list items => cases h
  | string _ | integer _ | boolean _ => rfl

namespace Coercions
variable {a : Attribute}

/-- the standard coercions bring scalars to scalars -/
theorem asList?_of_coerce {v w : Value} (hv : v.asList? = none)
    (h : standard.coerce a v = .ok w) : w.asList? = none := by
  rw [coerce_of_scalar standard a hv] at h
  obtain ⟨w', hw, hbrought⟩ | ⟨-, fault, hfault⟩ := coerceScalar_cases a v
  · cases hw.symm.trans h
    cases hbrought with
    | kept _ => exact hv
    | made _ _ _ _ hlist => exact hlist
  · cases hfault.symm.trans h

theorem acceptsScalar_of_coerceAll {vs ws : List Value} (hvs : ∀ v ∈ vs, v.asList? = none)
    (h : standard.coerceAll a vs = .ok ws) (haccepts : a.type.acceptsAll ws = true) :
    ∀ w ∈ ws, a.type.acceptsScalar w = true := by
  induction vs generalizing ws with
  | nil =>
    cases h
    exact nofun
  | cons v rest ih =>
    obtain ⟨hv, hrest⟩ := List.forall_mem_cons.mp hvs
    obtain ⟨w, hw, h⟩ := bind_eq_ok.mp h
    obtain ⟨others, hothers, rfl⟩ := map_eq_ok.mp h
    obtain ⟨hwaccepts, hothersaccept⟩ := Bool.and_eq_true_iff.mp haccepts
    rw [a.type.accepts_of_scalar (asList?_of_coerce hv hw)] at hwaccepts
    exact List.forall_mem_cons.mpr ⟨hwaccepts, ih hrest hothers hothersaccept⟩

end Coercions

/-- the value of a literal is a scalar that the type accepts, or a list of such after `in` -/
theorem literalValue_cases {a : Attribute} {t : Term} (ht : t.WellFormed) {v : Value}
    (h : literalValue .standard a t.literal = .ok v) :
    (v.asList? = none ∧ a.type.acceptsScalar v = true) ∨
      t.operator = .isIn ∧ ∃ ys, v = .list ys ∧ ∀ y ∈ ys, a.type.acceptsScalar y = true := by
  obtain ⟨hcoerce, haccepts⟩ := literalValue_eq_ok_iff.mp h
  cases hl : t.literal with
  | list items =>
    obtain ⟨hop, hitems⟩ := ht items hl
    rw [hl, Literal.value] at hcoerce
    obtain ⟨ys, hys, rfl⟩ := map_eq_ok.mp hcoerce
    refine .inr ⟨hop, ys, rfl, Coercions.acceptsScalar_of_coerceAll (fun x hx => ?_) hys haccepts⟩
    rw [Literal.values_eq_map] at hx
    obtain ⟨i, hi, rfl⟩ := List.mem_map.mp hx
    exact Literal.asList?_value (hitems i hi)
  | string _ | integer _ | boolean _ =>
    have hscalar : t.literal.value.asList? = none := by
      rw [hl]
      rfl
    have hv := Coercions.asList?_of_coerce hscalar hcoerce
    rw [a.type.accepts_of_scalar hv] at haccepts
    exact .inl ⟨hv, haccepts⟩

/-! ## comparisons -/

theorem Truth.known_or {x y : Truth} (hx : ∃ b, x = some b) (hy : ∃ b, y = some b) :
    ∃ b, Truth.or x y = some b := by
  obtain ⟨b, rfl⟩ := hx
  obtain ⟨b', rfl⟩ := hy
  cases b <;> cases b' <;> exact ⟨_, rfl⟩

theorem Value.exists_memberOf {x : Value} {ys : List Value}
    (h : ∀ y ∈ ys, ∃ o, x.compare? y = some o) : ∃ b, x.memberOf ys = some b := by
  induction ys with
  | nil => exact ⟨false, rfl⟩
  | cons y rest ih =>
    obtain ⟨⟨o, ho⟩, hrest⟩ := List.forall_mem_cons.mp h
    rw [memberOf_cons, equals, ho]
    exact Truth.known_or ⟨_, rfl⟩ (ih hrest)

namespace Comparison
variable {op : Comparison} {x v : Value}

theorem exists_truth_negate (h : ∃ b, op.truth x v = some b) :
    ∃ b, op.negate.truth x v = some b := by
  obtain ⟨b, hb⟩ := h
  exact ⟨!b, by rw [truth_negate, hb]; rfl⟩

theorem exists_truth_isIn (hx : x ≠ .null) (h : ∀ y ∈ v.items, ∃ o, x.compare? y = some o) :
    ∃ b, isIn.truth x v = some b := by
  have hnull : x.isNull = false := Bool.eq_false_iff.mpr (mt Value.isNull_iff.mp hx)
  show ∃ b, x.memberOfItems v = some b
  rw [Value.memberOfItems, hnull]
  exact Value.exists_memberOf h

/-- membership in a scalar is equality with it -/
theorem exists_truth_of_scalar (hx : x ≠ .null) (hv : v.asList? = none) {o : Ordering}
    (h : x.compare? v = some o) : ∃ b, op.truth x v = some b := by
  have hitems : ∀ y ∈ v.items, ∃ o, x.compare? y = some o := by
    rw [Value.items, hv]
    exact List.forall_mem_singleton.mpr ⟨o, h⟩
  have hin := exists_truth_isIn hx hitems
  cases op with
  | isIn => exact hin
  | notIn => exact @exists_truth_negate isIn _ _ hin
  | eq | ne | gt | lt | ge | le => exact ⟨_, congrArg (Option.map _) h⟩

/-- the comparison of a term, with the value of its literal, of anything that the type accepts -/
theorem exists_truth {a : Attribute} {k : OrderKind} (hk : a.type.orderKind? = some k) {t : Term}
    (ht : t.WellFormed) (hv : literalValue .standard a t.literal = .ok v)
    (hx : a.type.acceptsScalar x = true) : ∃ b, t.operator.comparison.truth x v = some b := by
  have hnull : x ≠ .null := by
    rintro rfl
    obtain ⟨content, hplace⟩ := AttributeType.place?_of_acceptsScalar hk hx
    cases hplace
  rcases literalValue_cases ht hv with ⟨hscalar, haccepts⟩ | ⟨hop, ys, rfl, hys⟩
  · obtain ⟨o, ho⟩ := AttributeType.exists_compare? hk hx haccepts
    exact exists_truth_of_scalar hnull hscalar ho
  · rw [hop]
    exact exists_truth_isIn hnull fun y hy => AttributeType.exists_compare? hk hx (hys y hy)

end Comparison

/-! ## planned filters -/

/-- the comparisons in a predicate, with their values -/
def Predicate.comparisons : Predicate → List (Comparison × Value)
  | and left right => left.comparisons ++ right.comparisons
  | or left right => left.comparisons ++ right.comparisons
  | not inner => inner.comparisons
  | compare _ op v => [(op, v)]
  | exist _ _ inner => inner.comparisons

namespace Scope
variable {scope : Scope} {a : Attribute}

theorem comparisons_joinPredicates (op : Connective) (l r : Predicate) :
    (joinPredicates op l r).comparisons = l.comparisons ++ r.comparisons := by
  cases op <;> rfl

/-- a term is planned with its own comparison or with the negated one -/
theorem Reads.comparisons {selector : Selector} {read : Comparison → Value → Predicate}
    (h : scope.Reads a selector read) (op : Comparison) (v : Value) :
    (read op v).comparisons = [(op, v)] ∨ (read op v).comparisons = [(op.negate, v)] := by
  cases h with
  | star _ => exact .inl rfl
  | any _ _ => exact .inl rfl
  | all _ _ => exact .inr rfl

theorem comparisons_of_termPredicate {c : Coercions} {t : Term} {p : Predicate}
    (h : scope.termPredicate c a t = .ok p) : ∃ v, literalValue c a t.literal = .ok v ∧
      ∀ e ∈ p.comparisons, e.2 = v ∧
        (e.1 = t.operator.comparison ∨ e.1 = t.operator.comparison.negate) := by
  obtain ⟨v, read, hv, hread, rfl⟩ := termPredicate_eq_ok_iff.mp h
  refine ⟨v, hv, ?_⟩
  rcases hread.comparisons t.operator.comparison v with h | h
  · rw [h]
    exact List.forall_mem_singleton.mpr ⟨rfl, .inl rfl⟩
  · rw [h]
    exact List.forall_mem_singleton.mpr ⟨rfl, .inr rfl⟩

theorem exists_truth_of_predicate {k : OrderKind} (hk : a.type.orderKind? = some k) {f : Filter}
    (hf : ∀ t ∈ f.leaves, t.WellFormed) {p : Predicate}
    (hp : scope.predicate .standard a f = .ok p) {x : Value}
    (hx : a.type.acceptsScalar x = true) :
    ∀ e ∈ p.comparisons, ∃ b, e.1.truth x e.2 = some b := by
  induction f generalizing p with
  | term t =>
    obtain ⟨v, hv, hcomparisons⟩ := comparisons_of_termPredicate hp
    have htruth := Comparison.exists_truth hk (hf t (List.mem_singleton_self t)) hv hx
    intro e he
    obtain ⟨rfl, hop | hop⟩ := hcomparisons e he
    · exact hop ▸ htruth
    · exact hop ▸ Comparison.exists_truth_negate htruth
  | joined op left right ihl ihr =>
    obtain ⟨hleft, hright⟩ := List.forall_mem_append.mp hf
    obtain ⟨l, hl, h⟩ := bind_eq_ok.mp hp
    obtain ⟨r, hr, rfl⟩ := map_eq_ok.mp h
    rw [comparisons_joinPredicates]
    exact List.forall_mem_append.mpr ⟨ihl hleft hl, ihr hright hr⟩

end Scope

/-- an attribute of a type whose values have an order.  The comparison of a term whose literal is
accepted, and the negated comparison, are true or false of every stored value that the type
accepts; and so is each comparison in the predicate of a filter that is planned, whatever its
selectors make of it. -/
theorem Scope.comparisons_definite {a : Attribute}
    (htype : a.type ∈ [.integer, .string, .boolean, .date, .datetime, .time, .uuid, .decimal])
    {x : Value} (hscalar : x.asList? = none) (hx : a.type.accepts x = true) :
    (∀ (t : Term) (v : Value), t.WellFormed → literalValue .standard a t.literal = .ok v →
      (∃ b, t.operator.comparison.truth x v = some b) ∧
        ∃ b, t.operator.comparison.negate.truth x v = some b) ∧
    ∀ (scope : Scope) (f : Filter) (p : Predicate), (∀ t ∈ f.leaves, t.WellFormed) →
      scope.predicate .standard a f = .ok p →
        ∀ e ∈ p.comparisons, ∃ b, e.1.truth x e.2 = some b := by
  obtain ⟨k, hk⟩ : ∃ k, a.type.orderKind? = some k := by
    simp only [List.mem_cons, List.not_mem_nil, or_false] at htype
    rcases htype with h | h | h | h | h | h | h | h <;> exact ⟨_, by rw [h]; rfl⟩
  rw [a.type.accepts_of_scalar hscalar] at hx
  refine ⟨fun t v ht hv => ?_, fun scope f p hf hp => exists_truth_of_predicate hk hf hp hx⟩
  have htruth := Comparison.exists_truth hk ht hv hx
  exact ⟨htruth, Comparison.exists_truth_negate htruth⟩

/-! ## masses -/

namespace Masses

def mass : Attribute := ⟨"Sample", "mass", .decimal⟩

/-- a mass that is stored as a whole number -/
def stored : Value := .integer 3

def oneOfTwo : Term := ⟨.star, .isIn, .list [.string "2.5", .string "3.00"]⟩

def two : Value := .list [.decimal ⟨25, 1, by decide⟩, .decimal ⟨300, 2, by decide⟩]

def root : Scope := ⟨⟨"Sample", 0⟩, [], none⟩

theorem wellFormed_oneOfTwo : oneOfTwo.WellFormed := by
  intro items h
  cases h
  exact ⟨rfl, by decide⟩

theorem literalValue_oneOfTwo : literalValue .standard mass oneOfTwo.literal = .ok two := by cbv

theorem predicate_oneOfTwo : root.predicate .standard mass (.term oneOfTwo) =
    .ok (.compare (.bound ⟨"Sample", 0⟩ "mass") .isIn two) := by cbv

theorem comparisons_definite_masses :
    mass.type ∈ [.integer, .string, .boolean, .date, .datetime, .time, .uuid, .decimal] ∧
      stored.asList? = none ∧ mass.type.accepts stored = true ∧ oneOfTwo.WellFormed ∧
      literalValue .standard mass oneOfTwo.literal = .ok two ∧
      (∃ b, Comparison.isIn.truth stored two = some b) ∧
      (∃ b, Comparison.notIn.truth stored two = some b) ∧
      ∀ e ∈ (Predicate.compare (.bound ⟨"Sample", 0⟩ "mass") .isIn two).comparisons,
        ∃ b, e.1.truth stored e.2 = some b := by
  have htype : mass.type ∈
      [.integer, .string, .boolean, .date, .datetime, .time, .uuid, .decimal] := by
    simp [mass]
  obtain ⟨hterms, hfilters⟩ := Scope.comparisons_definite htype (x := stored) rfl rfl
  obtain ⟨hin, hnotIn⟩ := hterms oneOfTwo two wellFormed_oneOfTwo literalValue_oneOfTwo
  exact ⟨htype, rfl, rfl, wellFormed_oneOfTwo, literalValue_oneOfTwo, hin, hnotIn,
    hfilters root (.term oneOfTwo) _ (List.forall_mem_singleton.mpr wellFormed_oneOfTwo)
      predicate_oneOfTwo⟩

end Masses

end NestedQuery
