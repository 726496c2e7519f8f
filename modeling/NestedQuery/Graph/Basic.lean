import NestedQuery.Schema.Declaration

/-!
# Graphs of objects

The rows that a query loads become objects, each in a slot, that refer to each other by slots.

* `Related`, `Related.isLoaded`   a relationship of an object: deferred, or loaded;
* `Object`                 scalar fields and relationships by name;
* `Graph`, `Graph.object?` objects in the order of their slots, and the slots of the roots.
-/

namespace NestedQuery

inductive Related
  /-- not loaded -/
  | deferred (c : Cardinality)
  | one (slot : Option Nat)
  | many (slots : List Nat)
deriving DecidableEq

namespace Related

/-- loaded, with no object -/
def empty : Cardinality → Related
  | .one => one none
  | .many => many []

def isLoaded : Related → Bool
  | deferred _ => false
  | one _ => true
  | many _ => true

/-- a relationship of a cardinality as objects are added to it, which is empty before the first -/
def opened (c : Cardinality) : Option Related → Related
  | none => empty c
  | some r => if r.isLoaded then r else empty c

/-- one more object, when the relationship is of a cardinality; many objects are kept once each,
and of single ones the last -/
def adding (c : Cardinality) (slot : Nat) (before : Option Related) : Related :=
  match c with
  | .one => one (some slot)
  | .many =>
    match opened c before with
    | deferred _ => one (some slot)
    | one _ => one (some slot)
    | many slots => many (if slots.contains slot then slots else slots ++ [slot])

end Related

inductive ObjectState
  /-- loaded from a store -/
  | persistent
  /-- not stored -/
  | transient
  /-- not stored yet -/
  | pending
deriving DecidableEq

/-- what a name means for an object -/
inductive Field
  | scalar (v : Value)
  | related (r : Related)

structure Object where
  model : String
  /-- the values of the primary key, if they are assigned -/
  key : Option (List Value)
  state : ObjectState
  fields : Dict Value
  relations : Dict Related

namespace Object

/-- a scalar field before a relationship of the same name -/
def get? (o : Object) (name : String) : Option Field :=
  (o.fields.get? name).map .scalar <|> (o.relations.get? name).map .related

def isLoaded (o : Object) (name : String) : Bool :=
  match o.relations.get? name with
  | some r => r.isLoaded
  | none => false

def isUnsaved (o : Object) : Bool :=
  match o.state with
  | .persistent => false
  | .transient | .pending => true

/-- a relationship with one more object in it -/
def attach (o : Object) (name : String) (c : Cardinality) (slot : Nat) : Object :=
  { o with relations := o.relations.insert name (Related.adding c slot (o.relations.get? name)) }

end Object

structure Graph where
  objects : List Object
  roots : List Nat

namespace Graph

def empty : Graph := ⟨[], []⟩

def object? (g : Graph) (slot : Nat) : Option Object := g.objects[slot]?

def size (g : Graph) : Nat := g.objects.length

/-- the roots that have an object -/
def rootObjects (g : Graph) : List Object := g.roots.filterMap g.object?

end Graph

end NestedQuery
