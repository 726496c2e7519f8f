import NestedQuery.Dict
import NestedQuery.Value.Basic

/-!
# Declarations of models

A model is declared with typed attributes, a primary key, relationships to other models, and
perhaps a parent whose variant it is.

* `AttributeType`, `AttributeType.accepts`   declared types and the values that suit them;
* `Attribute`, `Relationship`                with the model that declares them;
* `Declaration`                              a model as it is declared, built step by step.
-/

namespace NestedQuery

inductive AttributeType
  | integer
  | float
  | string
  | boolean
  | date
  | datetime
  | time
  | uuid
  | decimal
  /-- the members by name, with their underlying values -/
  | enum (members : Dict Value)
  /-- a type that only its name is known of; every value suits it -/
  | custom (name : String)

namespace AttributeType

/-- the name under which coercions to the type are registered -/
def key : AttributeType → String
  | integer => "integer"
  | float => "float"
  | string => "string"
  | boolean => "boolean"
  | date => "date"
  | datetime => "datetime"
  | time => "time"
  | uuid => "uuid"
  | decimal => "decimal"
  | enum _ => "enum"
  | custom name => name

/-- whether a value that is no list suits the type; where fractions are allowed whole numbers
suit it too -/
def acceptsScalar : AttributeType → Value → Bool
  | custom _, _ => true
  | integer, .integer _ => true
  | float, .float _ => true
  | float, .integer _ => true
  | string, .string _ => true
  | boolean, .boolean _ => true
  | date, .date _ => true
  | datetime, .datetime _ => true
  | time, .time _ => true
  | uuid, .uuid _ => true
  | decimal, .decimal _ => true
  | decimal, .integer _ => true
  | enum _, .member _ _ => true
  | _, _ => false

mutual

/-- whether a value suits the type; a list does when all its items do -/
def accepts (type : AttributeType) : Value → Bool
  | .list items => acceptsAll type items
  | value => acceptsScalar type value

def acceptsAll (type : AttributeType) : List Value → Bool
  | [] => true
  | value :: rest => accepts type value && acceptsAll type rest

end

end AttributeType

/-- how many rows a relationship leads to -/
inductive Cardinality
  | one
  | many
deriving DecidableEq

def Cardinality.isMany : Cardinality → Bool
  | one => false
  | many => true

structure Attribute where
  /-- the model that declares the attribute -/
  model : String
  name : String
  type : AttributeType

/-- rows of the target whose remote column equals the local column of a row -/
structure Relationship where
  /-- the model that declares the relationship -/
  model : String
  name : String
  target : String
  cardinality : Cardinality
  localColumn : String
  remoteColumn : String
deriving DecidableEq

/-- a model as it is declared -/
structure Declaration where
  name : String
  primaryKey : List String
  attributes : Dict Attribute
  relationships : Dict Relationship
  parent : Option String

namespace Declaration

/-- a model with a name and nothing else -/
def named (name : String) : Declaration := ⟨name, [], .empty, .empty, none⟩

def addAttribute (d : Declaration) (name : String) (type : AttributeType) : Declaration :=
  { d with attributes := d.attributes.insert name ⟨d.name, name, type⟩ }

/-- a further column of the primary key; one that is no attribute yet becomes an integer -/
def addKeyColumn (d : Declaration) (column : String) : Declaration :=
  let d := { d with primaryKey := d.primaryKey ++ [column] }
  if d.attributes.contains column then d else d.addAttribute column .integer

def addRelationship (d : Declaration) (name target : String) (cardinality : Cardinality)
    (localColumn remoteColumn : String) : Declaration :=
  let r : Relationship := ⟨d.name, name, target, cardinality, localColumn, remoteColumn⟩
  { d with relationships := d.relationships.insert name r }

def withParent (d : Declaration) (parent : String) : Declaration :=
  { d with parent := some parent }

end Declaration

end NestedQuery
