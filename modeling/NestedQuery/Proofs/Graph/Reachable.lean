import Mathlib.Logic.Relation
import NestedQuery.Proofs.Graph.Closed
import NestedQuery.Proofs.Graph.Distinct

/-!
# Slots that the roots lead to

The walk over a graph turns back wherever an object is on the path already, so that it does not go
along every way from a root.  It goes along all ways without a repetition, and to every slot that
can be reached there is one of these.

* `Graph.Refers`, `Graph.Reachable`   the slots that loaded relationships lead to;
* `Graph.Route`                a way from slot to slot that comes to no slot twice;
* `Graph.exists_route`         every slot that can be reached is at the end of one;
* `Graph.Route.exists_object`  a document is only made when the slots at their ends have objects;
* `Graph.exists_document_iff_reachable`   a graph has a document exactly when no slot that can be
                               reached dangles, and otherwise it fails with such a slot.

Relationships that are not loaded lead nowhere, so that they make no document fail.
-/

namespace NestedQuery

namespace Graph
variable {g : Graph}

/-! ## ways -/

/-- a loaded relationship of the object in a slot leads to another slot -/
inductive Refers (g : Graph) (i n : Nat) : Prop
  | one {o : Object} {name : String} (ho : g.object? i = some o)
      (hr : o.relations.get? name = some (.one (some n))) : Refers g i n
  | many {o : Object} {name : String} {slots : List Nat} (ho : g.object? i = some o)
      (hr : o.relations.get? name = some (.many slots)) (hn : n ∈ slots) : Refers g i n

/-- a root, or a slot that loaded relationships lead to from a root -/
def Reachable (g : Graph) (n : Nat) : Prop :=
  ∃ root ∈ g.roots, Relation.ReflTransGen g.Refers root n

theorem refers_iff {i n : Nat} {o : Object} (ho : g.object? i = some o) :
    g.Refers i n ↔ n ∈ o.slots := by
  rw [Object.mem_slots_iff]
  constructor
  · intro h
    cases h with
    | one ho' hr =>
      cases ho.symm.trans ho'
      exact ⟨_, _, hr, List.mem_singleton_self n⟩
    | many ho' hr hn =>
      cases ho.symm.trans ho'
      exact ⟨_, _, hr, hn⟩
  · rintro ⟨name, r, hr, hn⟩
    cases r with
    | deferred c => cases hn
    | one slot =>
      cases Option.mem_toList.mp hn
      exact .one ho hr
    | many slots => exact .many ho hr hn

theorem Refers.exists_object {i n : Nat} (h : g.Refers i n) : ∃ o, g.object? i = some o := by
  cases h with
  | one ho hr => exact ⟨_, ho⟩
  | many ho hr hn => exact ⟨_, ho⟩

/-- a way from a slot to another one that comes to no slot twice, and to none of a path -/
inductive Route (g : Graph) : List Nat → Nat → Nat → Prop
  | here {path : List Nat} {n : Nat} (hn : n ∉ path) : Route g path n n
  | step {path : List Nat} {i n last : Nat} (hi : i ∉ path) (h : g.Refers i n)
      (hrest : Route g (i :: path) n last) : Route g path i last

theorem Route.mono {path path' : List Nat} {i last : Nat} (h : g.Route path i last)
    (hsub : path' ⊆ path) : g.Route path' i last := by
  induction h generalizing path' with
  | here hn => exact .here fun hmem => hn (hsub hmem)
  | step hi h _ ih =>
    exact .step (fun hmem => hi (hsub hmem)) h (ih (List.cons_subset_cons _ hsub))

/-- a way may start at any slot that it comes to, and avoids any other slot -/
theorem Route.from_or_avoids {path : List Nat} {i last : Nat} (h : g.Route path i last)
    (n : Nat) : g.Route path n last ∨ g.Route (n :: path) i last := by
  induction h with
  | @here path i hi =>
    by_cases hn : i = n
    · subst hn
      exact .inl (.here hi)
    · exact .inr (.here (List.not_mem_cons_of_ne_of_not_mem hn hi))
  | @step path i k last hi h hrest ih =>
    by_cases hn : i = n
    · subst hn
      exact .inl (.step hi h hrest)
    · rcases ih with ih | ih
      · exact .inl (ih.mono (List.subset_cons_self i path))
      · refine .inr (.step (List.not_mem_cons_of_ne_of_not_mem hn hi) h (ih.mono ?_))
        -- the order of the slots to be avoided does not count
        exact (List.Perm.swap n i path).subset

/-- what can be reached can be reached without a repetition: a slot that comes again is left out
with all that is between -/
theorem exists_route {i last : Nat} (h : Relation.ReflTransGen g.Refers i last) :
    g.Route [] i last := by
  induction h using Relation.ReflTransGen.head_induction_on with
  | refl => exact .here List.not_mem_nil
  | @head i n h _ ih =>
    rcases ih.from_or_avoids i with hfrom | havoids
    · exact hfrom
    · exact .step List.not_mem_nil h havoids

/-! ## dangling slots -/

/-- what is visited below the slots of a path is visited along all ways from there that avoid the
path -/
theorem Route.exists_object (hg : g.Distinct) {path : List Nat} {i last : Nat}
    (h : g.Route path i last)
    (hvisit : Visit.Answers (g.visit (path.filterMap g.identity?)) i) :
    ∃ o, g.object? last = some o := by
  induction h with
  | @here path n hn =>
    obtain ⟨j, hj⟩ := hvisit
    cases ho : g.object? n with
    | none =>
      rw [visit_of_dangling ho] at hj
      cases hj
    | some o => exact ⟨o, rfl⟩
  | @step path i n last hi h _ ih =>
    obtain ⟨o, ho⟩ := h.exists_object
    obtain ⟨j, hj⟩ := hvisit
    rw [visit_of_notMem ho (mt (hg.mem_identities_iff ho).mp hi)] at hj
    obtain ⟨d, hd, -⟩ := map_eq_ok.mp hj
    refine ih ?_
    rw [List.filterMap_cons_some (identity?_of_some ho)]
    exact Object.exists_document_iff.mp ⟨d, hd⟩ n ((refers_iff ho).mp h)

/-- a visit fails with a dangling slot that can be reached; the induction is on the number of
identities that are not on the path -/
theorem dangling_of_visit {path : List Identity} {i : Nat} {e : Error}
    (h : g.visit path i = .error e) :
    ∃ n, Relation.ReflTransGen g.Refers i n ∧ g.object? n = none ∧ e = .danglingSlot n := by
  obtain ⟨k, hk⟩ : ∃ k, g.unvisited path = k := ⟨_, rfl⟩
  induction k using Nat.strongRecOn generalizing path i with
  | ind k ih =>
    subst hk
    cases ho : g.object? i with
    | none =>
      rw [visit_of_dangling ho] at h
      cases h
      exact ⟨i, .refl, ho, rfl⟩
    | some o =>
      by_cases hown : Identity.of o i ∈ path
      · rw [visit_of_mem ho hown] at h
        cases h
      · rw [visit_of_notMem ho hown] at h
        have hjudges := o.judges_document (g.visit (Identity.of o i :: path))
        rw [map_eq_error.mp h] at hjudges
        obtain ⟨before, m, after, hslots, -, hm⟩ := hjudges
        have hmem : m ∈ o.slots := hslots ▸ List.mem_append_right _ List.mem_cons_self
        obtain ⟨n, hreach, hn⟩ := ih _ (unvisited_cons_lt ho hown) hm rfl
        exact ⟨n, .head ((refers_iff ho).mpr hmem) hreach, hn⟩

theorem dangling_of_document {e : Error} (h : g.document = .error e) :
    ∃ n, g.Reachable n ∧ g.object? n = none ∧ e = .danglingSlot n := by
  have hjudges := judges_visitAll (g.visit []) g.roots
  rw [map_eq_error.mp h] at hjudges
  obtain ⟨before, root, after, hroots, -, hroot⟩ := hjudges
  obtain ⟨n, hreach, hn⟩ := dangling_of_visit hroot
  exact ⟨n, ⟨root, hroots ▸ List.mem_append_right _ List.mem_cons_self, hreach⟩, hn⟩

theorem Distinct.exists_object_of_reachable (hg : g.Distinct) {j : Json}
    (h : g.document = .ok j) {n : Nat} (hn : g.Reachable n) : ∃ o, g.object? n = some o := by
  obtain ⟨items, hitems, -⟩ := map_eq_ok.mp h
  obtain ⟨root, hroot, hreach⟩ := hn
  exact (exists_route hreach).exists_object hg (exists_visitAll_iff.mp ⟨items, hitems⟩ root hroot)

/-- where no two objects have one identity, the walk over a graph ends with a document exactly when
the roots and all slots that loaded relationships lead to from them have objects; otherwise it
fails, with one of these slots that has none -/
theorem exists_document_iff_reachable (hg : g.Distinct) :
    g.serialize = some g.document ∧
      ((∃ j, g.document = .ok j) ↔ ∀ n, g.Reachable n → ∃ o, g.object? n = some o) ∧
      ∀ e, g.document = .error e →
        ∃ n, g.Reachable n ∧ g.object? n = none ∧ e = .danglingSlot n := by
  refine ⟨g.serialize_eq, ⟨fun ⟨j, hj⟩ n => hg.exists_object_of_reachable hj, fun h => ?_⟩,
    fun e he => dangling_of_document he⟩
  cases hdoc : g.document with
  | ok j => exact ⟨j, rfl⟩
  | error e =>
    obtain ⟨n, hreach, hn, -⟩ := dangling_of_document hdoc
    obtain ⟨o, ho⟩ := h n hreach
    cases hn.symm.trans ho

/-! ## identities, slot by slot -/

theorem getElem?_identitiesFrom (first : Nat) (objects : List Object) (n : Nat) :
    (identitiesFrom first objects)[n]? = (objects[n]?).map fun o => .of o (first + n) := by
  induction objects generalizing first n with
  | nil => rfl
  | cons o rest ih =>
    cases n with
    | zero => rfl
    | succ n =>
      rw [identitiesFrom, List.getElem?_cons_succ, List.getElem?_cons_succ, ih, Nat.add_right_comm,
        Nat.add_assoc]

/-- identities tell objects apart when no identity is there twice -/
theorem distinct_of_nodup (h : g.identities.Nodup) : g.Distinct := by
  intro i j o o' ho ho' hij
  have hentry {n : Nat} {x : Object} (hx : g.object? n = some x) :
      g.identities[n]? = some (.of x n) := by
    have hx : g.objects[n]? = some x := hx
    rw [identities, getElem?_identitiesFrom, hx, Nat.zero_add]
    rfl
  have hi := hentry ho
  have hlt := (List.getElem?_eq_some_iff.mp hi).1
  refine (List.getElem?_inj hlt h).mp ?_
  rw [hi, hentry ho', hij]

end Graph

/-! ## rooms -/

namespace Rooms

def room (number : Int64) (doors : Related) : Object where
  model := "Room"
  key := some [.integer number]
  state := .persistent
  fields := .ofList [("number", .integer number)]
  relations := .ofList [("doors", doors)]

/-- two rooms with doors to each other, the second of which has a door to nowhere -/
def graph : Graph := ⟨[room 1 (.one (some 1)), room 2 (.many [0, 2])], [0]⟩

theorem distinct : graph.Distinct := Graph.distinct_of_nodup (by decide)

/-- the way to the dangling slot is through both rooms -/
theorem exists_document_iff_reachable_rooms :
    graph.Distinct ∧ graph.Reachable 2 ∧ graph.object? 2 = none ∧
      graph.serialize = some graph.document ∧
      ((∃ j, graph.document = .ok j) ↔
        ∀ n, graph.Reachable n → ∃ o, graph.object? n = some o) ∧
      ∀ e, graph.document = .error e →
        ∃ n, graph.Reachable n ∧ graph.object? n = none ∧ e = .danglingSlot n := by
  have hdoors (number : Int64) (r : Related) : (room number r).relations.get? "doors" = some r := rfl
  have hfirst : graph.Refers 0 1 := .one rfl (hdoors 1 _)
  have hsecond : graph.Refers 1 2 := .many rfl (hdoors 2 _) (by decide)
  exact ⟨distinct, ⟨0, List.mem_singleton_self 0, .tail (.single hfirst) hsecond⟩, rfl,
    Graph.exists_document_iff_reachable distinct⟩

example : graph.document = .error (.danglingSlot 2) := by cbv

end Rooms

end NestedQuery
