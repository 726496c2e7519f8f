import Mathlib
import NestedQuery.Proofs.Json.Paths

/-!
# One path for the whole walk over a graph

`Graph.document` gives every object the identities above it as a list of its own.  A walk can do
with a single set of identities instead: it puts each object into the set, goes through the
relationships of the object, and takes it out again.

* `Walk`                          steps that share a set of identities, and need not end;
* `Graph.serialize`               the walk from all roots, with one set for all of them;
* `Walk.Keeps`                    a step ends with a result and leaves the set as it was;
* `Graph.keeps_walkTarget`        below any path the walk ends with what `Graph.visit` says;
* `Graph.Trail`                   the identities of the objects along a path in a document;
* `Graph.serialize_eq_document`   the walk ends with the document of the graph, in which no path
                                  has an identity twice.

An object is only entered when it is not in the set yet.  This is why taking it out again gives
back the set from before, and why the walk comes to an end.
-/

namespace NestedQuery

/-- a step that reads and writes a set of identities; it may not end, or fail -/
abbrev Walk (α : Type) := StateT (Finset Identity) (ExceptT Error Option) α

/-! ## the walk -/

namespace Graph

mutual

/-- an object is in the set while its relationships are added to its scalar fields -/
def walkObject (g : Graph) (slot : Nat) : Walk Json :=
  match g.object? slot with
  | none => throw (.danglingSlot slot)
  | some o => do
    modify fun seen => insert (Identity.of o slot) seen
    let fields ← g |>.walkRelations o.isUnsaved (o.fields.map fun _ v => v.document)
      o.relations.entries
    modify fun seen => seen.erase (Identity.of o slot)
    return .ofDict fields
partial_fixpoint

/-- the object in a slot, unless it is in the set -/
def walkTarget (g : Graph) (slot : Nat) : Walk (Option Json) :=
  match g.object? slot with
  | none => throw (.danglingSlot slot)
  | some o => do
    let seen ← get
    if Identity.of o slot ∈ seen then
      return none
    else
      let j ← g |>.walkObject slot
      return some j
partial_fixpoint

def walkTargets (g : Graph) : List Nat → Walk (List Json)
  | [] => return []
  | slot :: rest => do
    let first ← g |>.walkTarget slot
    let others ← g |>.walkTargets rest
    return first.toList ++ others
partial_fixpoint

def walkRelated (g : Graph) (unsaved : Bool) : Related → Walk (Option Json)
  | .deferred c => return deferredDocument unsaved c
  | .one none => return some .null
  | .one (some slot) => g |>.walkTarget slot
  | .many slots => do
    let items ← g |>.walkTargets slots
    return some (.array items)
partial_fixpoint

/-- the fields so far, with one relationship after the other written over them -/
def walkRelations (g : Graph) (unsaved : Bool) (fields : Dict Json) :
    List (String × Related) → Walk (Dict Json)
  | [] => return fields
  | (name, r) :: rest => do
    let first ← g |>.walkRelated unsaved r
    match first with
    | none => g |>.walkRelations unsaved fields rest
    | some j => g |>.walkRelations unsaved (fields.insert name j) rest
partial_fixpoint

end

def walkRoots (g : Graph) : List Nat → Walk (List Json)
  | [] => return []
  | slot :: rest => do
    let first ← g.walkObject slot
    let others ← g.walkRoots rest
    return first :: others

/-- the walk from all roots, from the empty set on; `none` if it does not end -/
def serialize (g : Graph) : Option (Except Error Json) :=
  (((g.walkRoots g.roots).run ∅).map fun x => Json.array x.1).run

end Graph

/-! ## steps that leave the set as it was -/

/-- the step ends with a result, and with the set that it started from -/
def Walk.Keeps {α : Type} (w : Walk α) (seen : Finset Identity) (r : Except Error α) : Prop :=
  (w.run seen).run = some (r.map fun a => (a, seen))

namespace Walk.Keeps
variable {α β : Type} {seen : Finset Identity}

theorem pure (a : α) : Walk.Keeps (pure a) seen (.ok a) := rfl

theorem throw (e : Error) : Walk.Keeps (throw e : Walk α) seen (.error e) := rfl

theorem bind {w : Walk α} {f : α → Walk β} {r : Except Error α} {r' : α → Except Error β}
    (hw : w.Keeps seen r) (hf : ∀ a, r = .ok a → (f a).Keeps seen (r' a)) :
    Walk.Keeps (w >>= f) seen (r.bind r') := by
  unfold Walk.Keeps at *
  cases r with
  | error e =>
    show ((w.run seen).run >>= ExceptT.bindCont fun x => (f x.1).run x.2) = _
    rw [hw]
    rfl
  | ok a =>
    show ((w.run seen).run >>= ExceptT.bindCont fun x => (f x.1).run x.2) = _
    rw [hw]
    exact hf a rfl

theorem map {w : Walk α} {r : Except Error α} (hw : w.Keeps seen r) (f : α → β) :
    Walk.Keeps (w >>= fun a => Pure.pure (f a)) seen (r.map f) := by
  have h : Walk.Keeps _ seen (r.bind fun a => .ok (f a)) := hw.bind fun a _ => pure (f a)
  cases r <;> exact h

end Walk.Keeps

/-- an identity that is new to the set is put in before a step and taken out after it -/
theorem Walk.Keeps.within {α β : Type} {seen : Finset Identity} {own : Identity}
    (hown : own ∉ seen) {w : Walk α} {r : Except Error α} (hw : w.Keeps (insert own seen) r)
    (f : α → β) :
    Walk.Keeps (do
      modify fun seen => insert own seen
      let a ← w
      modify fun seen => seen.erase own
      return f a) seen (r.map f) := by
  unfold Walk.Keeps at *
  show ((w.run (insert own seen)).run >>= ExceptT.bindCont fun x =>
    (do modify fun seen => seen.erase own
        return f x.1 : Walk β).run x.2) = _
  rw [hw]
  cases r with
  | error e => rfl
  | ok a =>
    show some (Except.ok (f a, (insert own seen).erase own)) = _
    rw [Finset.erase_insert hown]
    rfl

/-! ## the walk and the document -/

namespace Graph
variable {g : Graph} {visit : Visit} {seen : Finset Identity}

section
variable (h : ∀ n, (g.walkTarget n).Keeps seen (visit n))
include h

theorem keeps_walkTargets (slots : List Nat) :
    (g.walkTargets slots).Keeps seen (visitAll visit slots) := by
  induction slots with
  | nil =>
    rw [walkTargets]
    exact .pure []
  | cons n rest ih =>
    rw [walkTargets, visitAll]
    exact (h n).bind fun first _ => ih.map _

theorem keeps_walkRelated (unsaved : Bool) (r : Related) :
    (g.walkRelated unsaved r).Keeps seen (r.document visit unsaved) := by
  rw [walkRelated.eq_def]
  cases r with
  | deferred c => exact .pure _
  | one slot =>
    cases slot with
    | none => exact .pure _
    | some n => exact h n
  | many slots => exact (keeps_walkTargets h slots).map _

theorem keeps_walkRelations (unsaved : Bool) (entries : List (String × Related))
    (fields : Dict Json) :
    (g.walkRelations unsaved fields entries).Keeps seen
      ((relationsDocument visit unsaved entries).map fields.insertList) := by
  induction entries generalizing fields with
  | nil =>
    rw [walkRelations]
    exact .pure fields
  | cons e rest ih =>
    obtain ⟨name, r⟩ := e
    have hsplit : (relationsDocument visit unsaved ((name, r) :: rest)).map fields.insertList =
        (r.document visit unsaved).bind fun first =>
          (relationsDocument visit unsaved rest).map
            (fields.insertList (first.toList.map fun j => (name, j))).insertList := by
      rw [relationsDocument]
      cases r.document visit unsaved with
      | error e => rfl
      | ok first =>
        cases relationsDocument visit unsaved rest with
        | error e => rfl
        | ok others =>
          show Except.ok (Dict.insertList _ (_ ++ others)) = _
          rw [Dict.insertList, List.foldl_append]
          rfl
    rw [hsplit, walkRelations]
    refine (keeps_walkRelated h unsaved r).bind fun first _ => ?_
    cases first with
    | none => exact ih fields
    | some j => exact ih (fields.insert name j)

end

theorem keeps_walkObject {slot : Nat} {o : Object} (ho : g.object? slot = some o)
    (hown : Identity.of o slot ∉ seen)
    (h : ∀ n, (g.walkTarget n).Keeps (insert (Identity.of o slot) seen) (visit n)) :
    (g.walkObject slot).Keeps seen (o.document visit) := by
  have hfields : o.document visit = ((relationsDocument visit o.isUnsaved o.relations.entries).map
      (o.fields.map fun _ v => v.document).insertList).map Json.ofDict := by
    unfold Object.document
    simp only [Dict.ofList_overlay]
    cases relationsDocument visit o.isUnsaved o.relations.entries <;> rfl
  rw [walkObject, ho, hfields]
  exact (keeps_walkRelations h _ _ _).within hown _

theorem length_identitiesFrom (first : Nat) (objects : List Object) :
    (identitiesFrom first objects).length = objects.length := by
  induction objects generalizing first with
  | nil => rfl
  | cons o rest ih => simp [identitiesFrom, ih]

theorem length_identities (g : Graph) : g.identities.length = g.size :=
  length_identitiesFrom 0 g.objects

/-! ## slots below a path -/

section
variable {path : List Identity} {slot : Nat}

theorem visit_of_dangling (h : g.object? slot = none) :
    g.visit path slot = .error (.danglingSlot slot) := by
  unfold Graph.visit
  split
  · rfl
  · simp_all

variable {o : Object} (ho : g.object? slot = some o)
include ho

theorem visit_of_mem (h : Identity.of o slot ∈ path) : g.visit path slot = .ok none := by
  unfold Graph.visit
  split <;> simp_all

theorem visit_of_notMem (h : Identity.of o slot ∉ path) :
    g.visit path slot = (o.document (g.visit (Identity.of o slot :: path))).map some := by
  rw [Graph.visit]
  split <;> simp_all

end

/-- below any path the walk ends with what becomes of the slot there -/
theorem keeps_walkTarget (g : Graph) (path : List Identity) (slot : Nat) :
    (g.walkTarget slot).Keeps path.toFinset (g.visit path slot) := by
  -- an object adds its identity to the path only if it is not on it, and there are finitely many
  obtain ⟨k, hk⟩ : ∃ k, g.unvisited path = k := ⟨_, rfl⟩
  induction k using Nat.strongRecOn generalizing path slot with
  | ind k ih =>
    subst hk
    rw [walkTarget]
    cases ho : g.object? slot with
    | none =>
      rw [visit_of_dangling ho]
      exact .throw _
    | some o =>
      show Walk.Keeps (if Identity.of o slot ∈ path.toFinset then _ else _) _ _
      by_cases hown : Identity.of o slot ∈ path
      · rw [if_pos (List.mem_toFinset.mpr hown), visit_of_mem ho hown]
        exact .pure none
      · have hnew : Identity.of o slot ∉ path.toFinset := fun h => hown (List.mem_toFinset.mp h)
        rw [if_neg hnew, visit_of_notMem ho hown]
        refine Walk.Keeps.map (keeps_walkObject ho hnew fun n => ?_) some
        rw [← List.toFinset_cons]
        exact ih _ (unvisited_cons_lt ho hown) _ n rfl

/-- an object that is not on the path is entered without a look at the set -/
theorem keeps_walkObject_visit (g : Graph) (path : List Identity) (slot : Nat)
    (h : ∀ o, g.object? slot = some o → Identity.of o slot ∉ path) :
    ∃ r, (g.walkObject slot).Keeps path.toFinset r ∧ g.visit path slot = r.map some := by
  cases ho : g.object? slot with
  | none =>
    refine ⟨.error (.danglingSlot slot), ?_, visit_of_dangling ho⟩
    rw [walkObject, ho]
    exact .throw _
  | some o =>
    have hown := h o ho
    refine ⟨_, keeps_walkObject ho (fun h => hown (List.mem_toFinset.mp h)) fun n => ?_,
      visit_of_notMem ho hown⟩
    rw [← List.toFinset_cons]
    exact keeps_walkTarget g _ n

/-- nothing is above a root -/
theorem keeps_walkRoots (g : Graph) (slots : List Nat) :
    (g.walkRoots slots).Keeps ∅ (visitAll (g.visit []) slots) := by
  induction slots with
  | nil => exact .pure []
  | cons slot rest ih =>
    obtain ⟨r, hr, hvisit⟩ := g.keeps_walkObject_visit [] slot fun _ _ => List.not_mem_nil
    have hroots : visitAll (g.visit []) (slot :: rest) =
        r.bind fun j => (visitAll (g.visit []) rest).map (j :: ·) := by
      rw [visitAll, hvisit]
      cases r <;> rfl
    rw [hroots, walkRoots]
    exact hr.bind fun j _ => ih.map _

theorem serialize_eq (g : Graph) : g.serialize = some g.document := by
  have h := keeps_walkRoots g g.roots
  unfold Walk.Keeps at h
  show ((g.walkRoots g.roots).run ∅).run >>= _ = _
  rw [h, document]
  cases visitAll (g.visit []) g.roots <;> rfl

/-! ## paths in the document -/

/-- along a path of field names from the object in a slot to another object of the document: the
identities of the objects, the last one first, and behind them those above the first one -/
inductive Trail (g : Graph) : List Identity → Nat → List String → Json → List Identity → Prop
  | last {path : List Identity} {slot : Nat} {o : Object} {j : Json}
      (ho : g.object? slot = some o) (hj : g.visit path slot = .ok (some j)) :
      Trail g path slot [] j (Identity.of o slot :: path)
  | step {path ids : List Identity} {slot n : Nat} {o : Object} {name : String}
      {names : List String} {r : Related} {j : Json} (ho : g.object? slot = some o)
      (hr : o.relations.get? name = some r) (hn : n ∈ r.slots)
      (h : Trail g (Identity.of o slot :: path) n names j ids) :
      Trail g path slot (name :: names) j ids

theorem Trail.length_eq {path ids : List Identity} {slot : Nat} {names : List String} {j : Json}
    (h : g.Trail path slot names j ids) : ids.length = path.length + names.length + 1 := by
  induction h with
  | last ho hj => rfl
  | step ho hr hn h ih =>
    rw [ih, List.length_cons, List.length_cons]
    omega

theorem Trail.subset {path ids : List Identity} {slot : Nat} {names : List String} {j : Json}
    (h : g.Trail path slot names j ids) (hpath : path ⊆ g.identities) : ids ⊆ g.identities := by
  induction h with
  | last ho hj => exact List.cons_subset.mpr ⟨identity_mem ho, hpath⟩
  | step ho hr hn h ih => exact ih (List.cons_subset.mpr ⟨identity_mem ho, hpath⟩)

/-- a path in the document of an object has a trail, on which all identities differ -/
theorem exists_trail {d : Json} {names : List String} {fields : List (String × Json)}
    (hpath : d.Path names (.object fields)) {path : List Identity} (hnodup : path.Nodup)
    {slot : Nat} (hvisit : g.visit path slot = .ok (some d)) :
    ∃ ids, g.Trail path slot names (.object fields) ids ∧ ids.Nodup := by
  generalize hj : Json.object fields = j at hpath
  induction hpath generalizing path slot with
  | nil j =>
    obtain ⟨o, ho, hown, -⟩ := visit_eq_ok hvisit
    exact ⟨_, .last ho hvisit, List.nodup_cons.mpr ⟨hown, hnodup⟩⟩
  | @cons own name rest w v j hfield hv hrest ih =>
    obtain ⟨o, ho, hown, hd⟩ := visit_eq_ok hvisit
    obtain ⟨_, he, hfields⟩ := Object.field_of_document hd
    cases he
    subst hj
    obtain ⟨inner, rfl⟩ := hrest.eq_object
    -- an object below this one is in one of its relationships, since no scalar contains any
    rcases hfields name w hfield with ⟨r, hr, hdoc⟩ | ⟨scalar, -, rfl⟩
    · obtain ⟨n, hn, hbelow⟩ := Related.visit_of_within (fun _ _ => visit_object) hdoc hv
      obtain ⟨ids, htrail, hids⟩ := ih (List.nodup_cons.mpr ⟨hown, hnodup⟩) hbelow rfl
      exact ⟨ids, .step ho hr hn htrail, hids⟩
    · exact absurd hv (Value.not_within_document inner scalar)

/-- the walk with one set ends on every graph, with the document or the error of the recursion in
which every object has its own list of identities above it; after each object, list of objects and
root the set is as it was before.  Along a path in a document no identity comes twice, so that no
more objects stand inside of each other than there are. -/
theorem serialize_eq_document (g : Graph) :
    g.serialize = some g.document ∧
      (∀ path slot, (g.walkTarget slot).Keeps path.toFinset (g.visit path slot)) ∧
      (∀ path slots,
        (g.walkTargets slots).Keeps path.toFinset (visitAll (g.visit path) slots)) ∧
      (∀ slots, (g.walkRoots slots).Keeps ∅ (visitAll (g.visit []) slots)) ∧
      ∀ doc, g.document = .ok doc → ∃ items, doc = .array items ∧
        ∀ item ∈ items, ∃ root ∈ g.roots, ∀ names fields, item.Path names (.object fields) →
          ∃ ids, g.Trail [] root names (.object fields) ids ∧ ids.Nodup ∧
            ids.length = names.length + 1 ∧ ids.length ≤ g.size := by
  refine ⟨g.serialize_eq, g.keeps_walkTarget, fun path => ?_, g.keeps_walkRoots,
    fun doc hdoc => ?_⟩
  · exact keeps_walkTargets (g.keeps_walkTarget path)
  obtain ⟨items, hitems, rfl⟩ := map_eq_ok.mp hdoc
  refine ⟨items, rfl, fun item hitem => ?_⟩
  obtain ⟨root, hroot, hvisit⟩ := mem_visitAll hitems hitem
  refine ⟨root, hroot, fun names fields hpath => ?_⟩
  obtain ⟨ids, htrail, hnodup⟩ := exists_trail hpath List.nodup_nil hvisit
  have hlength := htrail.length_eq
  have hle : ids.length ≤ g.identities.length :=
    (hnodup.subperm (htrail.subset (List.nil_subset _))).length_le
  rw [length_identities] at hle
  exact ⟨ids, htrail, hnodup, by simpa using hlength, hle⟩

end Graph

end NestedQuery
