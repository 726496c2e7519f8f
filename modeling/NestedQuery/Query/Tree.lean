import NestedQuery.Query.Term
import NestedQuery.Schema.Declaration

/-!
# Queries as trees

A query names a model and, in blocks inside of each other, the attributes and relationships to
load.  An attribute may carry a filter.

* `Filter`             terms joined by `and` and `or`;
* `Member`, `Query`    the tree, with every name resolved;
* `Member.cast?`       the class that a block narrows its relationship to.
-/

namespace NestedQuery

inductive Filter
  | term (t : Term)
  | joined (c : Connective) (left right : Filter)

inductive Member
  | attribute (a : Attribute) (filter : Option Filter)
  /-- a block for a relationship; its members are those of `model`, which is the target or one of
  the target's variants -/
  | relationship (r : Relationship) (model : String) (children : List Member)

namespace Member

instance : Inhabited Member := ⟨relationship ⟨"", "", "", .one, "", ""⟩ "" []⟩

def cast? : Member → Option String
  | .attribute _ _ => none
  | .relationship r model _ => if model = r.target then none else some model

end Member

structure Query where
  model : String
  children : List Member

end NestedQuery
