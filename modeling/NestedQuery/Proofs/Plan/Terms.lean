import NestedQuery.Plan.OfQuery
import NestedQuery.Proofs.Outcome
import NestedQuery.Store.Bindings

/-!
# How a term is planned

Planning a term has three parts: its literal is brought to the type of the attribute, the type has
to accept what comes out, and the selector has to suit the block.  What the selector makes of the
comparison then is its reading, which does not depend on the comparison itself.

* `Setting`                  what a selector has to suit: a block and its relationship;
* `Scope.Reads`              what a selector makes of comparisons;
* `Scope.termPredicate_cases`   everything that planning a term can end with;
* `Scope.termPredicate_eq_ok_iff`   a term is planned as the reading of its comparison;
* `someTrue_eq`              a test of rows that always answers;
* `Scope.truth_own`, `Scope.truth_existing`   the truth of readings, under any binding;
* `Scope.truth_joinPredicates`   the truth of predicates under a connective.
-/

namespace NestedQuery

/-! ## settings -/

/-- the model of a block, and the name and the cardinality of its relationship; the root block has
none -/
structure Setting where
  model : String
  relationship : Option (String × Cardinality)

namespace Setting

/-- a selector may stand here: `*` in the root block and below a relationship to one row, the
quantified ones below a relationship to many -/
def Admits (g : Setting) : Selector → Prop
  | .star => g.relationship = none ∨ ∃ name, g.relationship = some (name, .one)
  | .any => ∃ name, g.relationship = some (name, .many)
  | .all => ∃ name, g.relationship = some (name, .many)

/-- a selector may not stand here, with the reason for it -/
inductive Refuses (g : Setting) : Selector → SelectorContext → Prop
  | toMany {name : String} (h : g.relationship = some (name, .many)) : Refuses g .star (.toMany name)
  | toOne {selector : Selector} {name : String} (hs : selector ≠ .star)
      (h : g.relationship = some (name, .one)) : Refuses g selector (.toOne name)
  | root {selector : Selector} (hs : selector ≠ .star) (h : g.relationship = none) :
      Refuses g selector (.root g.model)

theorem Admits.of_quantified {g : Setting} {selector : Selector} (hs : selector ≠ .star)
    (h : g.Admits selector) : ∃ name, g.relationship = some (name, .many) := by
  cases selector with
  | star => exact absurd rfl hs
  | any => exact h
  | all => exact h

theorem Refuses.not_admits {g : Setting} {selector : Selector} {context : SelectorContext}
    (h : g.Refuses selector context) : ¬ g.Admits selector := by
  intro ha
  cases h with
  | toMany h =>
    rcases ha with hnone | ⟨name', hone⟩
    · cases h.symm.trans hnone
    · cases h.symm.trans hone
  | toOne hs h =>
    obtain ⟨name', hmany⟩ := ha.of_quantified hs
    cases h.symm.trans hmany
  | root hs h =>
    obtain ⟨name', hmany⟩ := ha.of_quantified hs
    cases h.symm.trans hmany

end Setting

namespace Scope
variable {scope : Scope} {c : Coercions} {a : Attribute} {selector : Selector}

/-- the setting of the members of a block -/
def setting (scope : Scope) : Setting :=
  ⟨scope.bound.model, scope.enclosing.map fun e => (e.1.name, e.1.cardinality)⟩

/-! ## readings -/

/-- what a selector makes of comparisons with an attribute, where it may stand -/
inductive Reads (scope : Scope) (a : Attribute) : Selector → (Comparison → Value → Predicate) → Prop
  | star (h : scope.setting.Admits .star) :
      Reads scope a .star fun op v => .compare (.bound scope.bound a.name) op v
  | any {r : Relationship} {parent : Alias} (h : scope.enclosing = some (r, parent))
      (hr : r.cardinality = .many) : Reads scope a .any fun op v => existing parent r a op v
  | all {r : Relationship} {parent : Alias} (h : scope.enclosing = some (r, parent))
      (hr : r.cardinality = .many) :
      Reads scope a .all fun op v => .not (existing parent r a op.negate v)

theorem setting_of_none (h : scope.enclosing = none) : scope.setting.relationship = none := by
  rw [setting, h]
  rfl

theorem setting_of_some {r : Relationship} {parent : Alias}
    (h : scope.enclosing = some (r, parent)) :
    scope.setting.relationship = some (r.name, r.cardinality) := by
  rw [setting, h]
  rfl

/-- a comparison of the block's own row is allowed or refused by the setting -/
theorem ownPredicate_cases (scope : Scope) (a : Attribute) (op : Comparison) (v : Value) :
    (∃ read, scope.Reads a .star read ∧ scope.ownPredicate a op v = .ok (read op v)) ∨
      ∃ context, scope.setting.Refuses .star context ∧
        scope.ownPredicate a op v = .error (.misplacedSelector .star context) := by
  unfold ownPredicate
  dsimp only
  split
  · rename_i h
    exact .inl ⟨_, .star (.inl (setting_of_none h)), rfl⟩
  · rename_i r parent h
    split
    · rename_i hr
      exact .inl ⟨_, .star (.inr ⟨r.name, by rw [setting_of_some h, hr]⟩), rfl⟩
    · rename_i hr
      exact .inr ⟨_, .toMany (by rw [setting_of_some h, hr]), rfl⟩

theorem quantified_cases (scope : Scope) (selector : Selector) (hs : selector ≠ .star) :
    (∃ r parent, scope.enclosing = some (r, parent) ∧ r.cardinality = .many ∧
        scope.quantified selector = .ok (r, parent)) ∨
      ∃ context, scope.setting.Refuses selector context ∧
        scope.quantified selector = .error (.misplacedSelector selector context) := by
  unfold quantified
  split
  · rename_i h
    exact .inr ⟨_, .root hs (setting_of_none h), rfl⟩
  · rename_i r parent h
    split
    · rename_i hr
      exact .inr ⟨_, .toOne hs (by rw [setting_of_some h, hr]), rfl⟩
    · rename_i hr
      exact .inl ⟨r, parent, h, hr, rfl⟩

/-- planning a term fails with its literal or with its selector, or the term is read -/
theorem termPredicate_cases (scope : Scope) (c : Coercions) (a : Attribute) (t : Term) :
    (∃ e, literalValue c a t.literal = .error e ∧ scope.termPredicate c a t = .error e) ∨
      ∃ v, literalValue c a t.literal = .ok v ∧
        ((∃ read, scope.Reads a t.selector read ∧
            scope.termPredicate c a t = .ok (read t.operator.comparison v)) ∨
          ∃ context, scope.setting.Refuses t.selector context ∧
            scope.termPredicate c a t = .error (.misplacedSelector t.selector context)) := by
  unfold termPredicate
  cases hv : literalValue c a t.literal with
  | error e => exact .inl ⟨e, rfl, rfl⟩
  | ok v =>
    refine .inr ⟨v, rfl, ?_⟩
    rw [bind_ok]
    dsimp only
    cases t.selector with
    | star => exact scope.ownPredicate_cases a _ v
    | any =>
      rcases scope.quantified_cases .any nofun with
        ⟨r, parent, h, hr, hq⟩ | ⟨context, hc, hq⟩
      · exact .inl ⟨_, .any h hr, by rw [hq, map_ok]⟩
      · exact .inr ⟨context, hc, by rw [hq]; rfl⟩
    | all =>
      rcases scope.quantified_cases .all nofun with
        ⟨r, parent, h, hr, hq⟩ | ⟨context, hc, hq⟩
      · exact .inl ⟨_, .all h hr, by rw [hq, map_ok]⟩
      · exact .inr ⟨context, hc, by rw [hq]; rfl⟩

theorem Reads.admits {read : Comparison → Value → Predicate} (h : scope.Reads a selector read) :
    scope.setting.Admits selector := by
  cases h with
  | star h => exact h
  | any h hr => exact ⟨_, by rw [setting_of_some h, hr]⟩
  | all h hr => exact ⟨_, by rw [setting_of_some h, hr]⟩

/-- a selector has one reading at most -/
theorem Reads.unique {read read' : Comparison → Value → Predicate}
    (h : scope.Reads a selector read) (h' : scope.Reads a selector read') : read = read' := by
  cases h with
  | star h =>
    cases h'
    rfl
  | any h hr =>
    cases h' with
    | any h' hr' =>
      cases h.symm.trans h'
      rfl
  | all h hr =>
    cases h' with
    | all h' hr' =>
      cases h.symm.trans h'
      rfl

/-- a term is planned as the reading of its comparison with the value of its literal -/
theorem termPredicate_eq_ok_iff {t : Term} {p : Predicate} :
    scope.termPredicate c a t = .ok p ↔ ∃ v read, literalValue c a t.literal = .ok v ∧
      scope.Reads a t.selector read ∧ p = read t.operator.comparison v := by
  rcases scope.termPredicate_cases c a t with
    ⟨e, hv, ht⟩ | ⟨v, hv, ⟨read, hread, ht⟩ | ⟨context, hcontext, ht⟩⟩
  · rw [ht, hv]
    exact iff_of_false nofun nofun
  · rw [ht, hv]
    constructor
    · intro h
      cases h
      exact ⟨v, read, rfl, hread, rfl⟩
    · rintro ⟨v', read', hv', hread', rfl⟩
      cases hv'
      rw [hread.unique hread']
  · rw [ht]
    refine iff_of_false nofun ?_
    rintro ⟨v', read, -, hread, -⟩
    exact hcontext.not_admits hread.admits

end Scope

/-! ## the truth of readings -/

/-- a test that always answers is gone through to the first row of which it is definitely true -/
theorem someTrue_eq {test : StoredRow → Except Error Truth} {f : StoredRow → Truth}
    {rows : List StoredRow} (h : ∀ row ∈ rows, test row = .ok (f row)) :
    someTrue test rows = .ok (some (rows.any fun row => f row == some true)) := by
  induction rows with
  | nil => rfl
  | cons row rest ih =>
    rw [someTrue_cons, h row List.mem_cons_self, bind_ok, List.any_cons]
    by_cases ht : f row = some true
    · rw [if_pos ht, ht]
      rfl
    · rw [if_neg ht, ih fun r hr => h r (List.mem_cons_of_mem _ hr), beq_eq_false_iff_ne.mpr ht]
      rfl

namespace Scope

/-- a comparison of the row of an alias fails only where the alias is not bound -/
theorem truth_own (st : Store) (b : Binding) (related : Option StoredRow) (bound : Alias)
    (column : String) (op : Comparison) (v : Value) :
    (Predicate.compare (.bound bound column) op v).truth st b related =
      (b.row bound).map fun row => op.truth (row.value column) v := by
  rw [Predicate.truth, Column.value]
  cases b.row bound with
  | ok row => rfl
  | error e => rfl

/-- a quantified comparison fails only where the related rows cannot be found -/
theorem truth_existing (st : Store) (b : Binding) (related : Option StoredRow) (parent : Alias)
    (r : Relationship) (a : Attribute) (op : Comparison) (v : Value) :
    (existing parent r a op v).truth st b related =
      (st.relatedTo b parent r r.target).map fun rows =>
        some (rows.any fun row => op.truth (row.value a.name) v == some true) := by
  rw [existing, Predicate.truth]
  cases st.relatedTo b parent r r.target with
  | ok rows => exact someTrue_eq fun row _ => rfl
  | error e => rfl

end Scope

/-! ## the truth of joined predicates -/

def Connective.truth : Connective → Truth → Truth → Truth
  | and => Truth.and
  | or => Truth.or

theorem Scope.truth_joinPredicates (op : Connective) (l r : Predicate) (st : Store) (b : Binding)
    (related : Option StoredRow) :
    (joinPredicates op l r).truth st b related =
      (l.truth st b related).bind fun x => (r.truth st b related).map (op.truth x) := by
  cases op <;> rfl

end NestedQuery
