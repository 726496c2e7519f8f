import NestedQuery.Error
import NestedQuery.Graph.Identity
import NestedQuery.Value.Document

/-!
# Graphs as documents

Every root becomes an object with its scalar fields and its loaded relationships.  What is
already on the path from the root is left out, so that a document is finite even where the
objects refer to each other in circles.

* `Object.document`     an object, given what becomes of the slots that it refers to;
* `Graph.visit`         the object in a slot below a path of identities;
* `Graph.document`      the array of the roots.
-/

namespace NestedQuery

/-- what becomes of the object in a slot; `none` where it is left out -/
abbrev Visit := Nat → Except Error (Option Json)

/-- the slots in their order, less those that are left out -/
def visitAll (visit : Visit) : List Nat → Except Error (List Json)
  | [] => .ok []
  | slot :: rest =>
    (visit slot).bind fun first => (visitAll visit rest).map fun others => first.toList ++ others

/-- a relationship that is not loaded is left out of a stored object and empty in another one -/
def deferredDocument (unsaved : Bool) (c : Cardinality) : Option Json :=
  if unsaved then
    match c with
    | .one => some .null
    | .many => some (.array [])
  else none

/-- the document of a relationship; `none` where it is left out -/
def Related.document (visit : Visit) (unsaved : Bool) : Related → Except Error (Option Json)
  | deferred c => .ok (deferredDocument unsaved c)
  | one none => .ok (some .null)
  | one (some slot) => visit slot
  | many slots => (visitAll visit slots).map fun items => some (.array items)

/-- the relationships that are not left out, by name -/
def relationsDocument (visit : Visit) (unsaved : Bool) :
    List (String × Related) → Except Error (List (String × Json))
  | [] => .ok []
  | (name, r) :: rest =>
    (r.document visit unsaved).bind fun first =>
      (relationsDocument visit unsaved rest).map fun others =>
        (first.toList.map fun j => (name, j)) ++ others

/-- the scalar fields, and over them the relationships -/
def Object.document (visit : Visit) (o : Object) : Except Error Json :=
  (relationsDocument visit o.isUnsaved o.relations.entries).map fun relations =>
    .ofDict ((Dict.ofList relations).overlay (o.fields.map fun _ v => v.document))

/-! ## paths -/

namespace Graph

/-- the number of slots whose identities are not on a path -/
def unvisited (g : Graph) (path : List Identity) : Nat :=
  g.identities.countP fun i => !path.contains i

/-- fewer elements pass a test that is stricter, and strictly so on one of them -/
theorem countP_lt_of_imp {α : Type} {p q : α → Bool} {l : List α}
    (h : ∀ x, p x = true → q x = true) {a : α} (ha : a ∈ l) (hp : p a = false)
    (hq : q a = true) : l.countP p < l.countP q := by
  induction l with
  | nil => cases ha
  | cons b l ih =>
    have hle : l.countP p ≤ l.countP q := List.countP_mono_left fun x _ => h x
    rw [List.countP_cons, List.countP_cons]
    rcases List.mem_cons.mp ha with rfl | hl
    · rw [hp, hq]
      exact Nat.lt_succ_of_le hle
    · refine Nat.add_lt_add_of_lt_of_le (ih hl) ?_
      cases hb : p b with
      | false => exact Nat.zero_le _
      | true => exact Nat.le_of_eq (by rw [h b hb])

theorem unvisited_cons_lt {g : Graph} {slot : Nat} {o : Object} {path : List Identity}
    (h : g.object? slot = some o) (hp : Identity.of o slot ∉ path) :
    g.unvisited (Identity.of o slot :: path) < g.unvisited path := by
  refine countP_lt_of_imp (fun i hi => ?_) (identity_mem h) ?_ ?_
  · rw [List.contains_cons, Bool.not_or, Bool.and_eq_true] at hi
    exact hi.2
  · rw [List.contains_cons, beq_self_eq_true, Bool.true_or, Bool.not_true]
  · rw [Bool.not_eq_true', List.contains_eq_mem, decide_eq_false hp]

/-- the document of the object in a slot below the identities of a path; `none` if the object is
one of them -/
def visit (g : Graph) (path : List Identity) (slot : Nat) : Except Error (Option Json) :=
  match _h : g.object? slot with
  | none => .error (.danglingSlot slot)
  | some o =>
    if _hp : Identity.of o slot ∈ path then .ok none
    else (o.document (g.visit (Identity.of o slot :: path))).map some
termination_by g.unvisited path
decreasing_by exact unvisited_cons_lt _h _hp

/-- the roots, each at the start of a path -/
def document (g : Graph) : Except Error Json :=
  (visitAll (g.visit []) g.roots).map .array

end Graph

end NestedQuery
