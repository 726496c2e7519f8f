import NestedQuery.Proofs.Query.Parsing

/-!
# Trees with resolved names

Every name in a tree that is read from tokens is one of the schema:

* `Schema.Resolves`            attributes, relationships and classes of the members of a block
                               belong to the model of the block;
* `Schema.Derives.resolves`    a block that tokens stand for is resolved;
* `Query.resolved_of_ofText`   so is a query that is read.

`Schema.Resolves` is by recursion on lists of members, with one case for a block inside of a
block, so that its induction is the one for whole trees.
-/

namespace NestedQuery

/-- the members of a block are those of a model of the schema -/
inductive Schema.Resolves (s : Schema) : String → List Member → Prop
  | nil (model : String) : Resolves s model []
  | attr {model : String} {a : Attribute} {rest : List Member} (f : Option Filter)
      (ha : s.attribute? model a.name = some a) (hrest : Resolves s model rest) :
      Resolves s model (.attribute a f :: rest)
  | block {model block : String} {r : Relationship} {children rest : List Member}
      (hr : s.relationship? model r.name = some r) (hb : s.isVariantOf block r.target = true)
      (hchildren : Resolves s block children) (hrest : Resolves s model rest) :
      Resolves s model (.relationship r block children :: rest)

/-- a query whose root is a model and whose names are resolved -/
structure Query.Resolved (s : Schema) (q : Query) : Prop where
  root : ∃ m, s.model? q.model = some m
  members : s.Resolves q.model q.children

section
variable {s : Schema} (hs : s.Sound)
include hs

/-- the model of a block is the target of its relationship or one of the target's variants -/
theorem Schema.CastTo.isVariantOf {target block : String} {ts : List Token}
    (ht : ∃ t, s.model? target = some t) (h : s.CastTo target ts block) :
    s.isVariantOf block target = true := by
  cases h with
  | none =>
    obtain ⟨t, ht⟩ := ht
    exact hs.isVariantOf_self ht
  | cast hm hc => exact hs.isVariantOf_iff_descendsFrom.mpr ⟨⟨_, hm⟩, hc⟩

theorem Schema.Derives.resolves {model : String} {ts : List Token} {members : List Member}
    (h : s.Derives model ts members) : s.Resolves model members := by
  induction h with
  | nil model => exact .nil model
  | attr ha _ _ ih =>
    have hname := hs.attribute_named ha
    exact .attr _ (hname ▸ ha) ih
  | block hr hc _ _ ihc ih =>
    have hname := hs.relationship_named hr
    exact .block (hname ▸ hr) (hc.isVariantOf hs (hs.target_known hr)) ihc ih

theorem Query.resolved_of_ofTokens {ts : TokenStream} {q : Query}
    (h : ofTokens s ts = .ok q) : q.Resolved s := by
  obtain ⟨ls, -, hq⟩ := derives_of_ofTokens hs h
  obtain ⟨us, -, hd⟩ := hq.body
  exact ⟨hq.root, hd.resolves hs⟩

theorem Query.resolved_of_ofText {text : String} {q : Query} (h : ofText s text = .ok q) :
    q.Resolved s :=
  resolved_of_ofTokens hs h

end

end NestedQuery
