import NestedQuery.Error
import NestedQuery.Json.Reader

/-!
# Fixtures

A fixture is a document with the declarations of models and with rows for them.

* `Fixture`                  declarations and rows as they are written;
* `Fixture.ofJson`           the fixture of a document, or why the document is none;
* `Fixture.ofText`           the fixture of a text.
-/

namespace NestedQuery

namespace Fixture

/-- the type of an attribute as it is written -/
inductive TypeForm
  | named (name : String)
  | enum (members : Dict Json)

structure RelationshipForm where
  target : String
  cardinality : Cardinality
  localColumn : String
  remoteColumn : String

structure ModelForm where
  name : String
  primaryKey : List String
  attributes : Dict TypeForm
  relationships : Dict RelationshipForm
  parent : Option String

end Fixture

structure Fixture where
  models : List Fixture.ModelForm
  rows : Dict (List (Dict Json))

namespace Fixture

open Json (Decoder Misfit asString asOptional asList asDict asChoice field? element? required
  requiredAt exhausted)

/-! ## parts -/

/-- a name, or an object with the members of an enumeration -/
def typeForm : Decoder TypeForm
  | .string name => .ok (.named name)
  | .object fields =>
    match fields.lookup "enum" with
    | some (.object members) => .ok (.enum (.ofList members))
    | _ => .error (.noAlternative "TypeSpec")
  | _ => .error (.noAlternative "TypeSpec")

def cardinality : Decoder Cardinality := asChoice [("one", .one), ("many", .many)]

def relationshipName : String := "RelationshipSpec"

/-- a relationship leads to one row where it does not say otherwise -/
def relationshipForm : Decoder RelationshipForm
  | .object fields => do
    let cardinality ← field? fields "cardinality" cardinality
    let localColumn ← field? fields "local" asString
    let remoteColumn ← field? fields "remote" asString
    let target ← field? fields "target" asString
    let target ← required "target" target
    let localColumn ← required "local" localColumn
    let remoteColumn ← required "remote" remoteColumn
    return ⟨target, cardinality.getD .one, localColumn, remoteColumn⟩
  | .array items => do
    let (target, rest) ← element? asString items
    let target ← requiredAt relationshipName 4 0 target
    let (cardinality, rest) ← element? cardinality rest
    let (localColumn, rest) ← element? asString rest
    let localColumn ← requiredAt relationshipName 4 2 localColumn
    let (remoteColumn, rest) ← element? asString rest
    let remoteColumn ← requiredAt relationshipName 4 3 remoteColumn
    exhausted items.length rest
    return ⟨target, cardinality.getD .one, localColumn, remoteColumn⟩
  | found => .error (.kind found ("struct " ++ relationshipName))

def modelName : String := "ModelSpec"

/-- a model has to have a name -/
def modelForm : Decoder ModelForm
  | .object fields => do
    let attributes ← field? fields "attributes" (asDict typeForm)
    let name ← field? fields "name" asString
    let parent ← field? fields "parent" (asOptional asString)
    let primaryKey ← field? fields "primary_key" (asList asString)
    let relationships ← field? fields "relationships" (asDict relationshipForm)
    let name ← required "name" name
    return ⟨name, primaryKey.getD [], attributes.getD .empty, relationships.getD .empty,
      parent.join⟩
  | .array items => do
    let (name, rest) ← element? asString items
    let name ← requiredAt modelName 5 0 name
    let (primaryKey, rest) ← element? (asList asString) rest
    let (attributes, rest) ← element? (asDict typeForm) rest
    let (relationships, rest) ← element? (asDict relationshipForm) rest
    let (parent, rest) ← element? (asOptional asString) rest
    exhausted items.length rest
    return ⟨name, primaryKey.getD [], attributes.getD .empty, relationships.getD .empty,
      parent.join⟩
  | found => .error (.kind found ("struct " ++ modelName))

/-- the columns of a row -/
def rowForm : Decoder (Dict Json) := asDict .ok

/-! ## the whole fixture -/

/-- models and rows may both be missing -/
def ofFields (fields : List (String × Json)) : Except Misfit Fixture := do
  let models ← field? fields "models" (asList modelForm)
  let rows ← field? fields "rows" (asDict (asList rowForm))
  return ⟨models.getD [], rows.getD .empty⟩

def ofJson : Decoder Fixture
  | .object fields => ofFields fields
  | _ => .error .notObject

def ofText (text : String) : Except Error Fixture :=
  match Json.ofText? text.toList with
  | none => .error .unreadableFixture
  | some document => (ofJson document).mapError .misshapenFixture

end Fixture

end NestedQuery
