import NestedQuery.Error

/-!
# Look-ups that answer with an error

The look-ups of a schema, with the error for a name that it does not have.
-/

namespace NestedQuery.Schema

def modelNamed (s : Schema) (name : String) : Except Error Model :=
  match s.model? name with
  | some m => .ok m
  | none => .error (.unknownModel name)

def attributeOf (s : Schema) (model name : String) : Except Error Attribute :=
  (s.modelNamed model).bind fun m =>
    match m.attributes.get? name with
    | some a => .ok a
    | none => .error (.unknownAttribute model name)

def relationshipOf (s : Schema) (model name : String) : Except Error Relationship :=
  (s.modelNamed model).bind fun m =>
    match m.relationships.get? name with
    | some r => .ok r
    | none => .error (.unknownRelationship model name)

/-- the model that a relationship leads to; an unknown model has no relationships -/
def targetModelOf (s : Schema) (model name : String) : Except Error Model :=
  match s.targetOf? model name with
  | some target => s.modelNamed target
  | none => .error (.unknownRelationship model name)

def targetOf (s : Schema) (model name : String) : Except Error String :=
  (s.targetModelOf model name).map (·.name)

def variantsOf (s : Schema) (name : String) : Except Error (List String) :=
  match s.variantsOf? name with
  | some names => .ok names
  | none => .error (.unknownModel name)

theorem modelNamed_of_some {s : Schema} {name : String} {m : Model} (h : s.model? name = some m) :
    s.modelNamed name = .ok m := by
  rw [modelNamed, h]

theorem modelNamed_of_none {s : Schema} {name : String} (h : s.model? name = none) :
    s.modelNamed name = .error (.unknownModel name) := by
  rw [modelNamed, h]

end NestedQuery.Schema
