import NestedQuery.Schema.Basic

/-!
# From declarations to a schema

Declarations make a schema when their names differ, when every parent and every target of a
relationship is among them, and when no model descends from itself.  A member that a model does
not declare is that of its nearest ancestor.

* `Schema.Fault`             what is wrong with a list of declarations;
* `lineageOf?`               a declaration with its ancestors, unless they go in a circle;
* `Model.ofLineage`          the merged model;
* `Schema.ofDeclarations`    the schema, or the first fault.
-/

namespace NestedQuery

inductive Schema.Fault
  | duplicateModel (name : String)
  | unknownParent (model parent : String)
  | unknownTarget (model relationship target : String)
  | cyclicInheritance
deriving DecidableEq

def Schema.Fault.message : Schema.Fault → String
  | .duplicateModel name => s!"duplicate model `{name}`"
  | .unknownParent model parent => s!"model `{model}` is a variant of unknown model `{parent}`"
  | .unknownTarget model relationship target =>
    s!"relationship `{model}.{relationship}` targets unknown model `{target}`"
  | .cyclicInheritance => "cyclic polymorphic inheritance"

/-! ## the merged model -/

/-- the primary key of the nearest declaration that has one -/
def keyOfLineage : List Declaration → List String
  | [] => []
  | d :: rest => if d.primaryKey.isEmpty then keyOfLineage rest else d.primaryKey

/-- for every name the attribute of the nearest declaration that has it -/
def attributesOfLineage : List Declaration → Dict Attribute
  | [] => .empty
  | d :: rest => d.attributes.overlay (attributesOfLineage rest)

/-- for every name the relationship of the nearest declaration that has it -/
def relationshipsOfLineage : List Declaration → Dict Relationship
  | [] => .empty
  | d :: rest => d.relationships.overlay (relationshipsOfLineage rest)

/-- a declaration with its ancestors' members merged in -/
def Model.ofLineage (name : String) (lineage : List Declaration) : Model where
  name := name
  ancestors := (lineage.map (·.name)).tail
  primaryKey := keyOfLineage lineage
  attributes := attributesOfLineage lineage
  relationships := relationshipsOfLineage lineage

/-! ## checks -/

/-- the declarations by name -/
def collect (known : Dict Declaration) : List Declaration → Except Schema.Fault (Dict Declaration)
  | [] => .ok known
  | d :: rest =>
    if known.contains d.name then .error (.duplicateModel d.name)
    else collect (known.insert d.name d) rest

/-- the first relationship whose target is not declared -/
def checkTargets (known : Dict Declaration) (model : String) :
    List (String × Relationship) → Except Schema.Fault Unit
  | [] => .ok ()
  | e :: rest =>
    if known.contains e.2.target then checkTargets known model rest
    else .error (.unknownTarget model e.2.name e.2.target)

/-- the first model whose parent or one of whose targets is not declared -/
def checkReferences (known : Dict Declaration) :
    List (String × Declaration) → Except Schema.Fault Unit
  | [] => .ok ()
  | e :: rest =>
    match e.2.parent.filter fun p => !known.contains p with
    | some parent => .error (.unknownParent e.2.name parent)
    | none =>
      match checkTargets known e.2.name e.2.relationships.entries with
      | .error fault => .error fault
      | .ok () => checkReferences known rest

/-- a declaration, its parent, its parent's parent and so on, if that ends within `depth` -/
def lineageOf? (known : Dict Declaration) : Nat → Declaration → Option (List Declaration)
  | 0, _ => none
  | depth + 1, d =>
    match d.parent.bind known.get? with
    | none => some [d]
    | some parent => (lineageOf? known depth parent).map (d :: ·)

/-- no line of ancestors of distinct models is longer than there are models -/
def Schema.merge (known : Dict Declaration) : Except Schema.Fault Schema :=
  if known.entries.all fun e => (lineageOf? known known.size e.2).isSome then
    .ok ⟨known.map fun name d => .ofLineage name ((lineageOf? known known.size d).getD [])⟩
  else .error .cyclicInheritance

/-- duplicates count first, then references, then circles -/
def Schema.ofDeclarations (declarations : List Declaration) : Except Schema.Fault Schema :=
  match collect .empty declarations with
  | .error fault => .error fault
  | .ok known =>
    match checkReferences known known.entries with
    | .error fault => .error fault
    | .ok () => Schema.merge known

end NestedQuery
