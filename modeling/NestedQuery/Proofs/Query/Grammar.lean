import NestedQuery.Proofs.Schema.Variants
import NestedQuery.Query.Token
import NestedQuery.Query.Tree

/-!
# The grammar of a query

Which tokens stand for which tree:

    query        := rootOpen body close
    body         := (attribute | block)*
    attribute    := attr (filterStart expression filterEnd)?
    block        := relationshipOpen cast? body close
    expression   := factor (connective expression)?
    factor       := term | openParen expression closeParen

with every name looked up in the model of the block around it.  The relations here know nothing
of a reader; that the reader accepts them and nothing else is in `Proofs/Query/Parsing`.

* `Filter.Derives`      tokens of expressions and of their factors;
* `Schema.Derives`      tokens of the members of a block of a model;
* `Query.Derives`       tokens of a whole query;
* `Filter.Chain`        factors with connectives between them, which group to the right.
-/

namespace NestedQuery

/-! ## filters -/

/-- the two levels of a filter -/
inductive Filter.Part
  | factor
  | expression

/-- tokens that stand for a filter -/
inductive Filter.Derives : Filter.Part → List Token → Filter → Prop
  | term (t : Term) : Derives .factor [.term t] (.term t)
  | paren {ts : List Token} {f : Filter} (h : Derives .expression ts f) :
      Derives .factor (.openParen :: (ts ++ [.closeParen])) f
  | single {ts : List Token} {f : Filter} (h : Derives .factor ts f) : Derives .expression ts f
  | joined {ts us : List Token} {l r : Filter} (c : Connective) (hl : Derives .factor ts l)
      (hr : Derives .expression us r) :
      Derives .expression (ts ++ .connective c :: us) (.joined c l r)

/-- tokens after the name of an attribute: a filter in brackets, or nothing -/
inductive Filter.Group : List Token → Option Filter → Prop
  | none : Group [] none
  | some {ts : List Token} {f : Filter} (h : Filter.Derives .expression ts f) :
      Group (.filterStart :: (ts ++ [.filterEnd])) (some f)

/-! ## members -/

/-- tokens after the name of a relationship with a target: the class of the block, which is the
target or one of its variants, or nothing for the target itself -/
inductive Schema.CastTo (s : Schema) (target : String) : List Token → String → Prop
  | none : CastTo s target [] target
  | cast {c : String} {m : Model} (hm : s.model? c = some m) (hc : s.DescendsFrom target c) :
      CastTo s target [.cast c] c

/-- tokens that stand for members of a block of a model -/
inductive Schema.Derives (s : Schema) : String → List Token → List Member → Prop
  | nil (model : String) : Derives s model [] []
  | attr {model name : String} {a : Attribute} {f : Option Filter} {ts us : List Token}
      {rest : List Member} (ha : s.attribute? model name = some a) (hf : Filter.Group ts f)
      (hrest : Derives s model us rest) :
      Derives s model (.attr name :: (ts ++ us)) (.attribute a f :: rest)
  | block {model name block : String} {r : Relationship} {ts us vs : List Token}
      {children rest : List Member} (hr : s.relationship? model name = some r)
      (hc : s.CastTo r.target ts block) (hchildren : Derives s block us children)
      (hrest : Derives s model vs rest) :
      Derives s model (.relationshipOpen name :: (ts ++ (us ++ .close :: vs)))
        (.relationship r block children :: rest)

/-- tokens that stand for a query of a known model -/
structure Query.Derives (s : Schema) (ts : List Token) (q : Query) : Prop where
  root : ∃ m, s.model? q.model = some m
  body : ∃ us, ts = .rootOpen q.model :: (us ++ [.close]) ∧ s.Derives q.model us q.children

/-! ## chains -/

/-- a factor with its tokens -/
structure Filter.Factor where
  tokens : List Token
  filter : Filter
  derives : Filter.Derives .factor tokens filter

/-- factors with connectives between them, and no parentheses around any part of the chain -/
abbrev Filter.Chain := List (Connective × Filter.Factor)

namespace Filter.Chain

/-- the tokens of a factor and of the chain after it -/
def tokens (first : Factor) : Chain → List Token
  | [] => first.tokens
  | (c, next) :: rest => first.tokens ++ .connective c :: tokens next rest

/-- every connective has all that follows it on its right -/
def filter (first : Factor) : Chain → Filter
  | [] => first.filter
  | (c, next) :: rest => .joined c first.filter (filter next rest)

theorem derives (first : Factor) (chain : Chain) :
    Filter.Derives .expression (tokens first chain) (filter first chain) := by
  induction chain generalizing first with
  | nil => exact .single first.derives
  | cons link rest ih => exact .joined link.1 first.derives (ih link.2)

end Filter.Chain

end NestedQuery
