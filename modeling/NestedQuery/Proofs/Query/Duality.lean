import NestedQuery.Proofs.Plan.Terms
import NestedQuery.Proofs.Query.Filter.Scanning
import NestedQuery.Proofs.Query.Quantified

/-!
# Duals of filters

The dual of a filter swaps `and` with `or` and `any` with `all`, and negates every comparison.  It
is planned where the filter is, and its predicate has the negated truth: true and false change
places, and unknown stays unknown.  A quantified predicate is never unknown, so that every binding
satisfies either a quantified filter or its dual.

Membership has no dual, since its negation cannot be written.

* `Filter.dual`               the dual of a filter;
* `Scope.Reads.dual`          the readings of dual selectors negate each other;
* `Scope.truth_ne_none`       a quantified predicate is not unknown;
* `Scope.predicate_dual`      filters and their duals.
-/

namespace NestedQuery

/-! ## duals -/

/-- the quantified selectors change places -/
def Selector.dual : Selector → Selector
  | star => star
  | any => all
  | all => any

/-- the operator for the negated comparison; membership has none -/
def Operator.negate : Operator → Operator
  | eq => ne
  | ne => eq
  | gt => le
  | le => gt
  | lt => ge
  | ge => lt
  | isIn => isIn

def Connective.dual : Connective → Connective
  | and => or
  | or => and

def Term.dual (t : Term) : Term := ⟨t.selector.dual, t.operator.negate, t.literal⟩

def Filter.dual : Filter → Filter
  | term t => term t.dual
  | joined op left right => joined op.dual left.dual right.dual

/-- no term of a filter is about membership -/
def Filter.WithoutMembership (f : Filter) : Prop := ∀ t ∈ f.leaves, t.operator ≠ .isIn

/-- every term of a filter is about related rows -/
def Filter.Quantified (f : Filter) : Prop := ∀ t ∈ f.leaves, t.selector ≠ .star

theorem Operator.comparison_negate {op : Operator} (h : op ≠ .isIn) :
    op.negate.comparison = op.comparison.negate := by
  cases op with
  | isIn => exact absurd rfl h
  | eq | ne | gt | lt | ge | le => rfl

theorem Filter.forall_leaves_joined {P : Term → Prop} {op : Connective} {left right : Filter} :
    (∀ t ∈ (Filter.joined op left right).leaves, P t) ↔
      (∀ t ∈ left.leaves, P t) ∧ ∀ t ∈ right.leaves, P t := List.forall_mem_append

/-! ## connectives -/

theorem Connective.truth_dual (op : Connective) (x y : Truth) :
    op.dual.truth (Truth.not x) (Truth.not y) = Truth.not (op.truth x y) := by
  cases op with
  | and => exact (Truth.not_and x y).symm
  | or => exact (Truth.not_or x y).symm

theorem Connective.truth_ne_none (op : Connective) {x y : Truth} (hx : x ≠ none) (hy : y ≠ none) :
    op.truth x y ≠ none := by
  obtain ⟨v, rfl⟩ := Option.ne_none_iff_exists'.mp hx
  obtain ⟨w, rfl⟩ := Option.ne_none_iff_exists'.mp hy
  cases op <;> cases v <;> cases w <;> decide

/-! ## planned duals -/

/-- whatever it is evaluated on, one predicate has the negated truth of another one -/
def Predicate.Negates (p' p : Predicate) : Prop :=
  ∀ (st : Store) (b : Binding) (related : Option StoredRow),
    p'.truth st b related = (p.truth st b related).map Truth.not

theorem Predicate.negates_not (p : Predicate) : (Predicate.not p).Negates p := fun _ _ _ => rfl

theorem Predicate.Negates.symm {p p' : Predicate} (h : p'.Negates p) : p.Negates p' := by
  intro st b related
  rw [h st b related]
  cases p.truth st b related with
  | ok t => exact congrArg Except.ok (Truth.not_not t).symm
  | error e => rfl

namespace Scope
variable {scope : Scope} {c : Coercions} {a : Attribute}

/-- the readings of dual selectors for negated comparisons negate each other -/
theorem Reads.dual {selector : Selector} {read : Comparison → Value → Predicate}
    (h : scope.Reads a selector read) :
    ∃ read', scope.Reads a selector.dual read' ∧
      ∀ op v, (read' op.negate v).Negates (read op v) := by
  cases h with
  | star h =>
    refine ⟨_, .star h, fun op v st b related => ?_⟩
    rw [truth_own, truth_own]
    cases b.row scope.bound with
    | ok row => exact congrArg Except.ok (op.truth_negate _ v)
    | error e => rfl
  | any h hr =>
    refine ⟨_, .all h hr, fun op v => ?_⟩
    rw [op.negate_negate]
    exact Predicate.negates_not _
  | all h hr => exact ⟨_, .any h hr, fun op v => (Predicate.negates_not _).symm⟩

theorem exists_termPredicate_dual {t : Term} {p : Predicate} (ht : t.operator ≠ .isIn)
    (h : scope.termPredicate c a t = .ok p) :
    ∃ p', scope.termPredicate c a t.dual = .ok p' ∧ p'.Negates p := by
  obtain ⟨v, read, hv, hread, rfl⟩ := termPredicate_eq_ok_iff.mp h
  obtain ⟨read', hread', hnegates⟩ := hread.dual
  refine ⟨_, termPredicate_eq_ok_iff.mpr ⟨v, read', hv, hread', rfl⟩, ?_⟩
  show (read' t.operator.negate.comparison v).Negates _
  rw [Operator.comparison_negate ht]
  exact hnegates _ v

theorem exists_predicate_dual {f : Filter} {p : Predicate} (hf : f.WithoutMembership)
    (h : scope.predicate c a f = .ok p) :
    ∃ p', scope.predicate c a f.dual = .ok p' ∧ p'.Negates p := by
  induction f generalizing p with
  | term t => exact exists_termPredicate_dual (hf t (List.mem_singleton_self t)) h
  | joined op left right ihl ihr =>
    obtain ⟨hleft, hright⟩ := Filter.forall_leaves_joined.mp hf
    obtain ⟨l, hl, h⟩ := bind_eq_ok.mp h
    obtain ⟨r, hr, rfl⟩ := map_eq_ok.mp h
    obtain ⟨l', hl', hnl⟩ := ihl hleft hl
    obtain ⟨r', hr', hnr⟩ := ihr hright hr
    refine ⟨joinPredicates op.dual l' r', ?_, fun st b related => ?_⟩
    · show (scope.predicate c a left.dual).bind _ = _
      rw [hl', bind_ok, hr', map_ok]
    · rw [truth_joinPredicates, truth_joinPredicates, hnl st b related, hnr st b related]
      cases l.truth st b related with
      | error e => rfl
      | ok x =>
        cases r.truth st b related with
        | error e => rfl
        | ok y => exact congrArg Except.ok (op.truth_dual x y)

/-! ## quantified filters -/

theorem Reads.truth_ne_none {selector : Selector} {read : Comparison → Value → Predicate}
    (h : scope.Reads a selector read) (hs : selector ≠ .star) (op : Comparison) (v : Value)
    (st : Store) (b : Binding) (related : Option StoredRow) :
    (read op v).truth st b related ≠ .ok none := by
  cases h with
  | star h => exact absurd rfl hs
  | any h hr =>
    rw [truth_existing]
    intro hnone
    obtain ⟨rows, -, hnone⟩ := map_eq_ok.mp hnone
    cases hnone
  | all h hr =>
    rw [Predicate.truth, truth_existing]
    intro hnone
    obtain ⟨t, ht, hnone⟩ := map_eq_ok.mp hnone
    obtain ⟨rows, -, rfl⟩ := map_eq_ok.mp ht
    cases hnone

/-- a quantified predicate is not unknown -/
theorem truth_ne_none {f : Filter} {p : Predicate} (hf : f.Quantified)
    (h : scope.predicate c a f = .ok p) (st : Store) (b : Binding) (related : Option StoredRow) :
    p.truth st b related ≠ .ok none := by
  induction f generalizing p with
  | term t =>
    obtain ⟨v, read, -, hread, rfl⟩ := termPredicate_eq_ok_iff.mp h
    exact hread.truth_ne_none (hf t (List.mem_singleton_self t)) _ v st b related
  | joined op left right ihl ihr =>
    obtain ⟨hleft, hright⟩ := Filter.forall_leaves_joined.mp hf
    obtain ⟨l, hl, h⟩ := bind_eq_ok.mp h
    obtain ⟨r, hr, rfl⟩ := map_eq_ok.mp h
    have hxl := ihl hleft hl
    have hyr := ihr hright hr
    rw [truth_joinPredicates]
    intro htruth
    obtain ⟨x, hx, htruth⟩ := bind_eq_ok.mp htruth
    obtain ⟨y, hy, htruth⟩ := map_eq_ok.mp htruth
    refine op.truth_ne_none ?_ ?_ htruth
    · rintro rfl
      exact hxl hx
    · rintro rfl
      exact hyr hy

/-- the dual of a filter is planned where the filter is, and has the negated truth under every
binding.  Both have a truth where the aliases of the scope are bound.  If the filter is quantified,
it is never unknown, and a binding satisfies either it or its dual. -/
theorem predicate_dual {f : Filter} {p : Predicate} (hf : f.WithoutMembership)
    (hp : scope.predicate c a f = .ok p) :
    ∃ p', scope.predicate c a f.dual = .ok p' ∧
      (∀ (st : Store) (b : Binding) (related : Option StoredRow),
        p'.truth st b related = (p.truth st b related).map Truth.not) ∧
      (∀ (st : Store) (b : Binding) (site : Site), b.Sees st scope site →
        ∃ t, p.truth st b none = .ok t ∧ p'.truth st b none = .ok (Truth.not t)) ∧
      (f.Quantified →
        (∀ (st : Store) (b : Binding) (related : Option StoredRow),
          p.truth st b related ≠ .ok none ∧ p'.truth st b related ≠ .ok none) ∧
        ∀ (st : Store) (b : Binding) (site : Site), b.Sees st scope site →
          (p.truth st b none = .ok (some true) ∧ p'.truth st b none = .ok (some false)) ∨
            (p.truth st b none = .ok (some false) ∧ p'.truth st b none = .ok (some true))) := by
  obtain ⟨p', hp', hnegates⟩ := exists_predicate_dual hf hp
  have hsees (st : Store) (b : Binding) (site : Site) (hb : b.Sees st scope site) :
      ∃ t, p.truth st b none = .ok t ∧ p'.truth st b none = .ok (Truth.not t) := by
    have ht := truth_predicate hp hb
    exact ⟨_, ht, by rw [hnegates, ht, map_ok]⟩
  refine ⟨p', hp', hnegates, hsees, fun hq => ⟨fun st b related => ?_, fun st b site hb => ?_⟩⟩
  · have hknown := truth_ne_none hq hp st b related
    refine ⟨hknown, fun hunknown => hknown ?_⟩
    rw [hnegates.symm st b related, hunknown]
    rfl
  · obtain ⟨t, ht, ht'⟩ := hsees st b site hb
    rcases t with _ | _ | _
    · exact absurd ht (truth_ne_none hq hp st b none)
    · exact .inr ⟨ht, ht'⟩
    · exact .inl ⟨ht, ht'⟩

end Scope

namespace Samples

/-- some tube is of the type `a`, or every tube is of a later one than `b` -/
def anyOrAll : Filter :=
  .joined .or (.term ⟨.any, .eq, .string "a"⟩) (.term ⟨.all, .gt, .string "b"⟩)

example : anyOrAll.dual =
    .joined .and (.term ⟨.all, .ne, .string "a"⟩) (.term ⟨.any, .le, .string "b"⟩) := rfl

theorem forall_anyOrAll {P : Term → Prop} (hany : P ⟨.any, .eq, .string "a"⟩)
    (hall : P ⟨.all, .gt, .string "b"⟩) : ∀ t ∈ anyOrAll.leaves, P t := by
  intro t ht
  rcases List.mem_cons.mp ht with rfl | ht
  · exact hany
  · cases List.mem_singleton.mp ht
    exact hall

def tubeScope : Scope := sampleScope.inner tubes ⟨"Tube", 1⟩

def plannedAnyOrAll : Predicate :=
  (tubeScope.predicate .standard type anyOrAll).toOption.getD allOfTypeA

theorem predicate_anyOrAll :
    tubeScope.predicate .standard type anyOrAll = .ok plannedAnyOrAll := by cbv

/-- the tube of the sample, the type of which is not known -/
def tube : StoredRow :=
  ⟨"Tube", 0, Dict.ofList [("id", .integer 1), ("sample", .integer 1), ("type", .null)]⟩

def tubeBinding : Binding := (1, tube) :: sampleBinding

theorem sees_tubeBinding :
    tubeBinding.Sees store tubeScope ⟨tube, some (tubes, "Tube", sample)⟩ := by
  obtain ⟨m, hm⟩ : ∃ m, store.schema.model? "Tube" = some m := ⟨_, by cbv⟩
  exact .block rfl rfl hm rfl

/-- an unknown type does not stand against `all`, so that the filter holds of the sample, and its
dual does not -/
theorem predicate_dual_anyOrAll :
    anyOrAll.WithoutMembership ∧ anyOrAll.Quantified ∧
      tubeScope.predicate .standard type anyOrAll = .ok plannedAnyOrAll ∧
      tubeBinding.Sees store tubeScope ⟨tube, some (tubes, "Tube", sample)⟩ ∧
      ∃ p', tubeScope.predicate .standard type anyOrAll.dual = .ok p' ∧
        (∀ (st : Store) (b : Binding) (related : Option StoredRow),
          p'.truth st b related = (plannedAnyOrAll.truth st b related).map Truth.not) ∧
        plannedAnyOrAll.truth store tubeBinding none = .ok (some true) ∧
        p'.truth store tubeBinding none = .ok (some false) := by
  have hf : anyOrAll.WithoutMembership := forall_anyOrAll nofun nofun
  have hq : anyOrAll.Quantified := forall_anyOrAll nofun nofun
  obtain ⟨p', hp', hnegates, -, hquantified⟩ := Scope.predicate_dual hf predicate_anyOrAll
  refine ⟨hf, hq, predicate_anyOrAll, sees_tubeBinding, p', hp', hnegates, ?_⟩
  have htrue : plannedAnyOrAll.truth store tubeBinding none = .ok (some true) := by cbv
  rcases (hquantified hq).2 store tubeBinding _ sees_tubeBinding with h | ⟨hfalse, -⟩
  · exact h
  · rw [htrue] at hfalse
    cases hfalse

end Samples

end NestedQuery
