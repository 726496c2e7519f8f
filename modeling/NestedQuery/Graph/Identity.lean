import NestedQuery.Graph.Basic

/-!
# Identities of objects

An object with an assigned key is known by its model and its key, and another one by its slot.

* `keyText?`            the text of a key that is assigned in full;
* `keyHasText`          whether it can be made;
* `Identity.of`         the identity of an object in a slot;
* `Graph.identities`    those of all objects, slot by slot.
-/

namespace NestedQuery

/-- a part of a key: strings as they are, and other values as messages show them -/
def keyPart : Value → List Char
  | .string s => s.toList
  | value => value.text

def keyTail : List Value → List Char
  | [] => []
  | value :: rest => '.' :: keyPart value ++ keyTail rest

/-- the parts of a key with a point between them, unless there is no part or a null part -/
def keyText? : List Value → Option String
  | [] => none
  | value :: rest =>
    if (value :: rest).any Value.isNull then none
    else some (String.ofList (keyPart value ++ keyTail rest))

/-- a key that is not assigned in full needs no text -/
def keyHasText (key : List Value) : Bool := key.any Value.isNull || key.all Value.hasText

inductive Identity
  | assigned (model key : String)
  | unassigned (model : String) (slot : Nat)
deriving DecidableEq

/-- the identity of the object in a slot -/
def Identity.of (o : Object) (slot : Nat) : Identity :=
  match o.key.bind keyText? with
  | some key => assigned o.model key
  | none => unassigned o.model slot

def identitiesFrom (slot : Nat) : List Object → List Identity
  | [] => []
  | o :: rest => Identity.of o slot :: identitiesFrom (slot + 1) rest

/-- the identities of the objects, slot by slot -/
def Graph.identities (g : Graph) : List Identity := identitiesFrom 0 g.objects

theorem identitiesFrom_mem {o : Object} {objects : List Object} {first slot : Nat}
    (h : objects[slot]? = some o) : Identity.of o (first + slot) ∈ identitiesFrom first objects := by
  induction objects generalizing first slot with
  | nil => cases h
  | cons x rest ih =>
    cases slot with
    | zero =>
      cases h
      exact List.mem_cons_self
    | succ slot =>
      rw [Nat.add_succ, ← Nat.succ_add]
      exact List.mem_cons_of_mem _ (ih h)

theorem Graph.identity_mem {g : Graph} {slot : Nat} {o : Object} (h : g.object? slot = some o) :
    Identity.of o slot ∈ g.identities := by
  have : Identity.of o (0 + slot) ∈ identitiesFrom 0 g.objects := identitiesFrom_mem h
  rwa [Nat.zero_add] at this

end NestedQuery
