import NestedQuery.Schema.Declaration

/-!
# Schemas

A schema holds models whose inherited members are merged in.  Variants form trees: every model
knows the line of its ancestors.

* `Model`, `Model.lineage`       a model, and the names from it up to the root of its tree;
* `Schema`, `Schema.model?`      models by name;
* `Schema.attribute?`, `Schema.relationship?`   members by name;
* `Schema.targets`, `Schema.targetOf?`   a table of what all relationships lead to;
* `Schema.variantsOf?`           a model and its variants, generation by generation;
* `Schema.isVariantOf`           whether one model is another or descends from it.
-/

namespace NestedQuery

/-- a model with its inherited members -/
structure Model where
  name : String
  /-- the models it is a variant of, the nearest first -/
  ancestors : List String
  primaryKey : List String
  attributes : Dict Attribute
  relationships : Dict Relationship

namespace Model

def parent (m : Model) : Option String := m.ancestors.head?

/-- the model and its ancestors, the nearest first -/
def lineage (m : Model) : List String := m.name :: m.ancestors

/-- the last of the lineage, which is no variant -/
def hierarchyRoot (m : Model) : String := m.lineage.getLast (List.cons_ne_nil _ _)

end Model

structure Schema where
  models : Dict Model

namespace Schema

def empty : Schema := ⟨.empty⟩

def model? (s : Schema) (name : String) : Option Model := s.models.get? name

def attribute? (s : Schema) (model name : String) : Option Attribute :=
  (s.model? model).bind (·.attributes.get? name)

def relationship? (s : Schema) (model name : String) : Option Relationship :=
  (s.model? model).bind (·.relationships.get? name)

/-- what the relationships of some models lead to, each under the name of its model and its own
name -/
def targetsOf (models : List Model) : List ((String × String) × String) :=
  models.flatMap fun m => m.relationships.values.map fun r => ((m.name, r.name), r.target)

/-- what the relationships of all models lead to -/
def targets (s : Schema) : List ((String × String) × String) := targetsOf s.models.values

/-- the name of the model that the relationship `name` of `model` leads to; of entries under the
same names the last counts -/
def targetOf? (s : Schema) (model name : String) : Option String :=
  s.targets.reverse.lookup (model, name)

/-- the direct variants of a model, in the order of their names -/
def directVariants (s : Schema) (name : String) : List String :=
  (s.models.entries.filter fun e => e.2.parent == some name).map (·.1)

/-- the models of one generation, then those of the next ones, `depth` generations at most -/
def generations (s : Schema) : Nat → List String → List String
  | 0, _ => []
  | depth + 1, names => names ++ s.generations depth (names.flatMap s.directVariants)

/-- a model, its direct variants, their direct variants and so on -/
def variantsOf? (s : Schema) (name : String) : Option (List String) :=
  (s.model? name).map fun _ => s.generations s.models.size [name]

/-- the candidate is the base or descends from it -/
def isVariantOf (s : Schema) (candidate base : String) : Bool :=
  match s.model? candidate with
  | some m => m.lineage.contains base
  | none => false

end Schema

end NestedQuery
