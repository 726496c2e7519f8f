import NestedQuery.Graph.Identity
import NestedQuery.Store.Bindings

/-!
# From bindings to a graph

The bindings of a plan are gone through in their order.  Every row becomes one object, whatever
the number of bindings and aliases that it is bound by, and every chain of a plan adds the
objects of its rows to each other's relationships.

* `RowIdentity`          what makes two bound rows one object;
* `Loading`              the objects so far;
* `Loading.place`        the slot of a row, a new one if it has none;
* `Loading.followChain`, `Loading.addBinding`   the relationships of a chain, of a binding;
* `Store.submit`         the graph that a plan asks for;
* `Store.breaksOff`      whether a key without a text keeps the graph from being made.
-/

namespace NestedQuery

/-- rows with equal keys are one object, and rows without a full key are known by their place -/
inductive RowIdentity
  | keyed (model key : String)
  | placed (model : String) (place : Nat)
deriving DecidableEq

def RowIdentity.of (m : Model) (r : StoredRow) : RowIdentity :=
  match keyText? (Store.keyOf m r.row) with
  | some key => keyed r.model key
  | none => placed r.model r.place

/-- a row as an object: all attributes of its model, with all relationships deferred -/
def Object.ofRow (m : Model) (r : StoredRow) : Object where
  model := r.model
  key := some (Store.keyOf m r.row)
  state := .persistent
  fields := m.attributes.map fun name _ => r.value name
  relations := m.relationships.map fun _ rel => .deferred rel.cardinality

/-- objects by slot, with the identities of their rows, and the slots of the roots -/
structure Loading where
  objects : List (RowIdentity × Object)
  roots : List Nat

namespace Loading

def empty : Loading := ⟨[], []⟩

def graph (l : Loading) : Graph := ⟨l.objects.map (·.2), l.roots⟩

/-- the slot of the object with an identity -/
def slotOf? (l : Loading) (i : RowIdentity) : Option Nat :=
  l.objects.findIdx? fun e => e.1 == i

/-- the slot of a row -/
def place (l : Loading) (s : Schema) (r : StoredRow) : Except Error (Nat × Loading) :=
  (s.modelNamed r.model).map fun m =>
    let i := RowIdentity.of m r
    match l.slotOf? i with
    | some slot => (slot, l)
    | none =>
      (l.objects.length, { l with objects := l.objects ++ [(i, Object.ofRow m r)] })

/-- the slot as a root, if it is not one yet -/
def addRoot (l : Loading) (slot : Nat) : Loading :=
  if l.roots.contains slot then l else { l with roots := l.roots ++ [slot] }

/-- an object in a relationship of the object of another row, which is of the cardinality that
the row's model declares -/
def attach (l : Loading) (s : Schema) (parent : StoredRow) (parentSlot : Nat) (name : String)
    (slot : Nat) : Except Error Loading :=
  (s.relationshipOf parent.model name).map fun rel =>
    { l with
      objects := l.objects.modify parentSlot fun e =>
        (e.1, e.2.attach name rel.cardinality slot) }

/-- the relationships of a chain that starts at a row in a slot -/
def followChain (s : Schema) (b : Binding) (l : Loading) (parent : StoredRow) (parentSlot : Nat) :
    List Hop → Except Error Loading
  | [] => .ok l
  | hop :: rest =>
    (b.row hop.bound).bind fun child =>
      (l.place s child).bind fun (slot, l) =>
        (l.attach s parent parentSlot hop.relationship slot).bind fun l =>
          followChain s b l child slot rest

def followChains (s : Schema) (b : Binding) (root : StoredRow) (slot : Nat) (l : Loading) :
    List (List Hop) → Except Error Loading
  | [] => .ok l
  | chain :: rest =>
    (followChain s b l root slot chain).bind fun l => followChains s b root slot l rest

/-- the root of a binding, and what its chains reach -/
def addBinding (s : Schema) (p : Plan) (l : Loading) (b : Binding) : Except Error Loading :=
  (b.row p.root).bind fun root =>
    (l.place s root).bind fun (slot, l) =>
      followChains s b root slot (l.addRoot slot) p.chains

def addBindings (s : Schema) (p : Plan) (l : Loading) : List Binding → Except Error Loading
  | [] => .ok l
  | b :: rest => (l.addBinding s p b).bind fun l => addBindings s p l rest

end Loading

namespace Store

/-- the models of all joined aliases are known -/
def checkJoins (s : Schema) : List Join → Except Error Unit
  | [] => .ok ()
  | j :: rest => (s.modelNamed j.bound.model).bind fun _ => checkJoins s rest

/-- the graph of the bindings that a plan keeps -/
def submit (s : Store) (p : Plan) : Except Error Graph :=
  (s.schema.modelNamed p.model).bind fun _ =>
    (checkJoins s.schema p.joins).bind fun _ =>
      (s.bindings p).bind fun bs =>
        (Loading.empty.addBindings s.schema p bs).map Loading.graph

end Store

/-! ## keys without a text -/

/-- whether the key of a row of a model has a text, by which the row is told from others -/
def Schema.tells (s : Schema) (model : String) (row : Row) : Bool :=
  match s.model? model with
  | some m => keyHasText (Store.keyOf m row)
  | none => true

/-- the aliases whose rows become objects -/
def Plan.loaded (p : Plan) : List Alias := p.root :: p.chains.flatten.map (·.bound)

/-- the rows that become objects under a binding -/
def Plan.rowsLoaded (p : Plan) (b : Binding) : List StoredRow :=
  p.loaded.filterMap fun a => b.lookup a.index

/-- whether the graph of a plan is given up at a row whose key has no text -/
def Store.breaksOff (s : Store) (p : Plan) : Bool :=
  match s.submit p, s.bindings p with
  | .ok _, .ok bs =>
    bs.any fun b => (p.rowsLoaded b).any fun r => !s.schema.tells r.model r.row
  | _, _ => false

end NestedQuery
