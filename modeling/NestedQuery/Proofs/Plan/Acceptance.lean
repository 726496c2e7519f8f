import NestedQuery.Proofs.Plan.Planned
import NestedQuery.Proofs.Plan.Terms
import NestedQuery.Proofs.Query.Filter.Scanning

/-!
# Which queries are planned

A query with resolved names is planned exactly when each of its terms is accepted by itself: its
literal is of the type of the attribute, and its selector suits the block around it.  Otherwise
planning fails with the first term, in the order of the text, that is not accepted.

* `Query.terms`            the terms of a query, with their attributes and settings;
* `PlacedTerm.Accepted`, `PlacedTerm.Offends`   what is asked of a term, and the errors;
* `Query.terms_eq`         the terms are those among the tokens, in their order;
* `Schema.Resolves.judges_planMembers`   planning judges the terms of members;
* `Plan.ofQuery_judges`    a query that is read is planned, or its first offence is reported.

Each function of the planner judges the terms that it is given (`Judges`), so that the proofs follow
the functions from literals up to queries.
-/

namespace NestedQuery

/-! ## terms of a query -/

/-- a term with the attribute whose column it is about, and the setting of the attribute -/
structure PlacedTerm where
  setting : Setting
  column : Attribute
  term : Term

/-- the terms of a filter from left to right -/
def Filter.placed (g : Setting) (a : Attribute) (f : Filter) : List PlacedTerm :=
  f.leaves.map fun t => ⟨g, a, t⟩

mutual

/-- the terms of a member of a block, in the order of the text -/
def Member.terms (g : Setting) : Member → List PlacedTerm
  | .attribute _ none => []
  | .attribute a (some f) => f.placed g a
  | .relationship r model children => termsAll ⟨model, some (r.name, r.cardinality)⟩ children

def termsAll (g : Setting) : List Member → List PlacedTerm
  | [] => []
  | m :: rest => m.terms g ++ termsAll g rest

end

def Query.terms (q : Query) : List PlacedTerm := termsAll ⟨q.model, none⟩ q.children

theorem Filter.map_term_placed (g : Setting) (a : Attribute) (f : Filter) :
    (f.placed g a).map PlacedTerm.term = f.leaves := by
  rw [placed, List.map_map]
  exact List.map_id _

/-! ## tokens -/

theorem Filter.terms_append (xs ys : List Token) :
    Filter.terms (xs ++ ys) = Filter.terms xs ++ Filter.terms ys := List.filterMap_append

theorem Filter.Group.terms_eq {ts : List Token} {f : Option Filter} (h : Filter.Group ts f)
    (g : Setting) (a : Attribute) :
    Filter.terms ts = ((Member.attribute a f).terms g).map PlacedTerm.term := by
  cases h with
  | none => rfl
  | @some ts f h =>
    show Filter.terms (ts ++ [.filterEnd]) = _
    rw [Filter.terms_append, h.terms_eq, Member.terms, Filter.map_term_placed]
    exact List.append_nil _

theorem Schema.CastTo.terms_eq {s : Schema} {target block : String} {ts : List Token}
    (h : s.CastTo target ts block) : Filter.terms ts = [] := by
  cases h with
  | none => rfl
  | cast hm hc => rfl

theorem Schema.Derives.terms_eq {s : Schema} {model : String} {ts : List Token}
    {members : List Member} (h : s.Derives model ts members) (g : Setting) :
    Filter.terms ts = (termsAll g members).map PlacedTerm.term := by
  induction h generalizing g with
  | nil model => rfl
  | @attr model name a f ts us rest ha hf hrest ih =>
    show Filter.terms (ts ++ us) = _
    rw [Filter.terms_append, termsAll, List.map_append, hf.terms_eq g a, ih g]
  | @block model name block r ts us vs children rest hr hc hchildren hrest ihc ih =>
    show Filter.terms (ts ++ (us ++ .close :: vs)) = _
    rw [Filter.terms_append, hc.terms_eq, List.nil_append, Filter.terms_append, termsAll,
      List.map_append, Member.terms, ihc, ← ih g]
    rfl

/-- the terms of a query are those among its tokens, in their order -/
theorem Query.terms_eq {s : Schema} (hs : s.Sound) {ts : TokenStream} {q : Query}
    (h : ofTokens s ts = .ok q) :
    ∃ ls : List Located, ts = ls.map Except.ok ∧
      q.terms.map PlacedTerm.term = Filter.terms (ls.map Located.token) := by
  obtain ⟨ls, hts, hq⟩ := derives_of_ofTokens hs h
  obtain ⟨us, hus, hd⟩ := hq.body
  refine ⟨ls, hts, ?_⟩
  show _ = Filter.terms (tokensOf ls)
  rw [hus]
  show _ = Filter.terms (us ++ [.close])
  rw [Filter.terms_append, hd.terms_eq ⟨q.model, none⟩]
  exact (List.append_nil _).symm

/-! ## literals -/

mutual

/-- a value without the lists around its parts -/
def Value.scalars : Value → List Value
  | .list items => scalarsAll items
  | value => [value]

def scalarsAll : List Value → List Value
  | [] => []
  | value :: rest => value.scalars ++ scalarsAll rest

end

namespace Coercions
variable (c : Coercions) (a : Attribute)

/-- a scalar can be brought to the type of an attribute -/
def Coerces (x : Value) : Prop := ∃ v, c.coerceScalar a x = .ok v

/-- a scalar cannot be brought to the type, with the fault that its coercion finds -/
def Refuses (x : Value) (e : Error) : Prop :=
  ∃ coercer fault, c.byKey.get? a.type.key = some coercer ∧ coercer a.type x = .error fault ∧
    e = .invalidLiteral a x fault

variable {c a}

theorem Refuses.not_coerces {x : Value} {e : Error} (h : c.Refuses a x e) : ¬ c.Coerces a x := by
  rintro ⟨v, hv⟩
  obtain ⟨coercer, fault, hc, hx, -⟩ := h
  rw [coerceScalar, hc] at hv
  dsimp only at hv
  rw [hx] at hv
  cases hv

theorem judges_coerceScalar (x : Value) :
    Judges (c.Coerces a) (c.Refuses a) [x] (c.coerceScalar a x) := by
  cases h : c.coerceScalar a x with
  | ok v => exact judges_ok ⟨v, h⟩ v
  | error e =>
    refine judges_error ?_
    unfold coerceScalar at h
    split at h
    · cases h
    · rename_i coercer hc
      split at h
      · cases h
      · rename_i fault hx
        cases h
        exact ⟨coercer, fault, hc, hx, rfl⟩

mutual

/-- lists are coerced item by item -/
theorem judges_coerce : ∀ v : Value, Judges (c.Coerces a) (c.Refuses a) v.scalars (c.coerce a v)
  | .list items => (judges_coerceAll items).map _
  | .null | .boolean _ | .integer _ | .float _ | .string _ | .date _ | .datetime _ | .time _
  | .uuid _ | .decimal _ | .member _ _ => judges_coerceScalar _

theorem judges_coerceAll : ∀ items : List Value,
    Judges (c.Coerces a) (c.Refuses a) (scalarsAll items) (c.coerceAll a items)
  | [] => judges_nil _
  | v :: rest => (judges_coerce v).bind fun _ _ => (judges_coerceAll rest).map _

end

end Coercions

/-! ## what is asked of a term -/

namespace PlacedTerm
variable (c : Coercions) (t : PlacedTerm)

/-- the parts of the literal can be brought to the type of the attribute, the type accepts what
comes out, and the selector may stand in the setting -/
structure Accepted : Prop where
  coerces : ∀ x ∈ t.term.literal.value.scalars, c.Coerces t.column x
  accepts : ∃ v, c.coerce t.column t.term.literal.value = .ok v ∧
    t.column.type.accepts v = true
  admits : t.setting.Admits t.term.selector

/-- the first of the three that a term fails, with the error for it -/
inductive Offends : Error → Prop
  | literal {e : Error} (h : FirstOffence (c.Coerces t.column) (c.Refuses t.column)
      t.term.literal.value.scalars e) : Offends e
  | type {v : Value} (hv : c.coerce t.column t.term.literal.value = .ok v)
      (h : t.column.type.accepts v = false) :
      Offends (.typeMismatch t.column (foundKind v))
  | selector {v : Value} {context : SelectorContext}
      (hv : c.coerce t.column t.term.literal.value = .ok v)
      (ha : t.column.type.accepts v = true)
      (h : t.setting.Refuses t.term.selector context) :
      Offends (.misplacedSelector t.term.selector context)

variable {c t}

theorem Offends.not_accepted {e : Error} (h : t.Offends c e) : ¬ t.Accepted c := by
  rintro ⟨hcoerces, ⟨v, hv, haccepts⟩, hadmits⟩
  cases h with
  | literal h =>
    obtain ⟨before, x, after, hx, -, hrefuses⟩ := h
    exact hrefuses.not_coerces (hcoerces x (hx ▸ List.mem_append_right _ List.mem_cons_self))
  | type hv' h =>
    cases hv.symm.trans hv'
    rw [haccepts] at h
    cases h
  | selector _ _ h => exact h.not_admits hadmits

/-- an offence is an invalid literal, a mismatch of types or a misplaced selector -/
theorem Offends.kinds {e : Error} (h : t.Offends c e) :
    (∃ a v fault, e = .invalidLiteral a v fault) ∨ (∃ a kind, e = .typeMismatch a kind) ∨
      ∃ selector context, e = .misplacedSelector selector context := by
  cases h with
  | literal h =>
    obtain ⟨before, x, after, -, -, coercer, fault, -, -, rfl⟩ := h
    exact .inl ⟨_, _, fault, rfl⟩
  | type _ _ => exact .inr (.inl ⟨_, _, rfl⟩)
  | selector _ _ _ => exact .inr (.inr ⟨_, _, rfl⟩)

end PlacedTerm

/-! ## planning -/

section
variable {s : Schema} {c : Coercions}

theorem literalValue_eq_ok_iff {a : Attribute} {literal : Literal} {v : Value} :
    literalValue c a literal = .ok v ↔
      c.coerce a literal.value = .ok v ∧ a.type.accepts v = true := by
  rw [literalValue, bind_eq_ok]
  constructor
  · rintro ⟨v', hv, h⟩
    split at h
    · cases h
      exact ⟨hv, ‹_›⟩
    · cases h
  · rintro ⟨hv, ha⟩
    exact ⟨v, hv, if_pos ha⟩

theorem offends_of_literalValue {t : PlacedTerm} {e : Error}
    (h : literalValue c t.column t.term.literal = .error e) : t.Offends c e := by
  rcases bind_eq_error.mp h with hcoerce | ⟨v, hv, haccepts⟩
  · have hjudges := c.judges_coerce (a := t.column) t.term.literal.value
    rw [hcoerce] at hjudges
    exact .literal hjudges
  · split at haccepts
    · cases haccepts
    · rename_i hno
      cases haccepts
      exact .type hv (Bool.eq_false_iff.mpr hno)

theorem Scope.judges_termPredicate (scope : Scope) (a : Attribute) (t : Term) :
    Judges (PlacedTerm.Accepted c) (PlacedTerm.Offends c) [⟨scope.setting, a, t⟩]
      (scope.termPredicate c a t) := by
  rcases scope.termPredicate_cases c a t with
    ⟨e, hv, ht⟩ | ⟨v, hv, ⟨read, hread, ht⟩ | ⟨context, hcontext, ht⟩⟩
  · rw [ht]
    exact judges_error (offends_of_literalValue hv)
  · rw [ht]
    obtain ⟨hcoerce, haccepts⟩ := literalValue_eq_ok_iff.mp hv
    have hjudges := c.judges_coerce (a := a) t.literal.value
    rw [hcoerce] at hjudges
    exact judges_ok ⟨hjudges, ⟨v, hcoerce, haccepts⟩, hread.admits⟩ _
  · rw [ht]
    obtain ⟨hcoerce, haccepts⟩ := literalValue_eq_ok_iff.mp hv
    exact judges_error (.selector hcoerce haccepts hcontext)

theorem Scope.judges_predicate (scope : Scope) (a : Attribute) (f : Filter) :
    Judges (PlacedTerm.Accepted c) (PlacedTerm.Offends c) (f.placed scope.setting a)
      (scope.predicate c a f) := by
  induction f with
  | term t => exact scope.judges_termPredicate a t
  | joined op left right ihl ihr =>
    rw [Filter.placed, Filter.leaves, List.map_append]
    exact ihl.bind fun _ _ => ihr.map _

/-- planning the members of a block judges the terms of their filters -/
theorem Schema.Resolves.judges_planMembers {model : String} {members : List Member}
    (h : s.Resolves model members) {scope : Scope} (hscope : scope.bound.model = model) (n : Nat) :
    Judges (PlacedTerm.Accepted c) (PlacedTerm.Offends c) (termsAll scope.setting members)
      (planMembers s c scope n members) := by
  induction h generalizing scope n with
  | nil model => exact judges_nil _
  | @attr model a rest f ha hrest ih =>
    subst hscope
    have hattribute : Judges (PlacedTerm.Accepted c) (PlacedTerm.Offends c)
        ((Member.attribute a f).terms scope.setting)
        (filterDirectives s c scope a f) := by
      rw [filterDirectives, Schema.attributeOf_ok_iff.mpr ha, bind_ok]
      cases f with
      | none => exact judges_nil _
      | some f => exact (scope.judges_predicate a f).map _
    exact (hattribute.map _).bind fun _ _ => (ih rfl _).map _
  | @block model block r children rest hr hb hchildren hrest ihc ih =>
    subst hscope
    have hblock : Judges (PlacedTerm.Accepted c) (PlacedTerm.Offends c)
        ((Member.relationship r block children).terms scope.setting)
        (planMember s c scope n (.relationship r block children)) := by
      rw [planMember, Schema.relationshipOf_ok_iff.mpr hr, bind_ok]
      have hinner : (scope.inner r ⟨block, n⟩).bound.model = block := rfl
      exact (ihc hinner _).map _
    exact hblock.bind fun _ _ => (ih rfl _).map _

/-- planning a resolved query judges its terms -/
theorem Query.Resolved.judges_ofQuery {q : Query} (h : q.Resolved s) :
    Judges (PlacedTerm.Accepted c) (PlacedTerm.Offends c) q.terms (Plan.ofQuery s c q) := by
  obtain ⟨m, hm⟩ := h.root
  rw [Plan.ofQuery, Schema.modelNamed_of_some hm, bind_ok]
  have hroot : (Scope.root q.model).bound.model = q.model := rfl
  exact (h.members.judges_planMembers hroot 1).map _

theorem Query.Resolved.exists_ofQuery_iff {q : Query} (h : q.Resolved s) :
    (∃ p, Plan.ofQuery s c q = .ok p) ↔ ∀ t ∈ q.terms, t.Accepted c :=
  h.judges_ofQuery.exists_ok_iff fun _ _ ht => ht.not_accepted

/-- a query that is read is planned exactly when each of its terms is accepted.  Otherwise the
error is what the first term, in the order of the text, offends with: an invalid literal, a
mismatch of types or a misplaced selector. -/
theorem Plan.ofQuery_judges {ts : TokenStream} {q : Query} (hs : s.Built)
    (hq : Query.ofTokens s ts = .ok q) (c : Coercions) :
    (∃ ls : List Located, ts = ls.map Except.ok ∧
        q.terms.map PlacedTerm.term = Filter.terms (ls.map Located.token)) ∧
      ((∃ p, ofQuery s c q = .ok p) ↔ ∀ t ∈ q.terms, t.Accepted c) ∧
      ∀ e, ofQuery s c q = .error e →
        (∃ before t after, q.terms = before ++ t :: after ∧ (∀ u ∈ before, u.Accepted c) ∧
          t.Offends c e) ∧
        ((∃ a v fault, e = .invalidLiteral a v fault) ∨ (∃ a kind, e = .typeMismatch a kind) ∨
          ∃ selector context, e = .misplacedSelector selector context) := by
  have hr := Query.resolved_of_ofTokens hs.sound hq
  refine ⟨Query.terms_eq hs.sound hq, hr.exists_ofQuery_iff, fun e he => ?_⟩
  have hjudges := hr.judges_ofQuery (c := c)
  rw [he] at hjudges
  obtain ⟨before, t, after, hterms, hbefore, ht⟩ := hjudges
  exact ⟨⟨before, t, after, hterms, hbefore, ht⟩, ht.kinds⟩

end

namespace Samples

/-- the first filter is accepted, and the second one compares the tubes of a sample themselves -/
def starText : String :=
  "query Sample \x7b\n id [* > 1]\n tubes \x7b\n  type [* == 'a']\n \x7d\n\x7d"

def starQuery : Query := (Query.ofText schema starText).toOption.getD ⟨"", []⟩

theorem ofTokens_starQuery : Query.ofTokens schema (tokenize starText) = .ok starQuery := by cbv

theorem ofQuery_judges_star :
    schema.Built ∧ Query.ofTokens schema (tokenize starText) = .ok starQuery ∧
      (∃ ls : List Located, tokenize starText = ls.map Except.ok ∧
        starQuery.terms.map PlacedTerm.term = Filter.terms (ls.map Located.token)) ∧
      ((∃ p, Plan.ofQuery schema .standard starQuery = .ok p) ↔
        ∀ t ∈ starQuery.terms, t.Accepted .standard) ∧
      ∀ e, Plan.ofQuery schema .standard starQuery = .error e →
        (∃ before t after, starQuery.terms = before ++ t :: after ∧
          (∀ u ∈ before, u.Accepted .standard) ∧ t.Offends .standard e) ∧
        ((∃ a v fault, e = .invalidLiteral a v fault) ∨ (∃ a kind, e = .typeMismatch a kind) ∨
          ∃ selector context, e = .misplacedSelector selector context) :=
  ⟨built, ofTokens_starQuery, Plan.ofQuery_judges built ofTokens_starQuery .standard⟩

example : Plan.ofQuery schema .standard starQuery =
    .error (.misplacedSelector .star (.toMany "tubes")) := by cbv

end Samples

end NestedQuery
