import NestedQuery.Proofs.Graph.Routes

/-!
# Graphs without dangling slots

A graph has a document when no slot in it dangles, and the graph of a query is of that kind.  What
becomes of an object hangs on the slots in its relationships alone.

* `Object.slots`             the slots in the relationships of an object;
* `Object.judges_document`   an object has a document, or fails with the first slot that does;
* `Graph.Closed`             the roots and all relationships refer to objects;
* `Graph.Closed.document`    such a graph has a document, though its objects refer to each other
                             in circles;
* `Query.Populates.closed`   the graph of a query is such a graph.
-/

namespace NestedQuery

/-! ## documents of objects -/

/-- a slot that something becomes of -/
def Visit.Answers (visit : Visit) (n : Nat) : Prop := ∃ j, visit n = .ok j

def Visit.Fails (visit : Visit) (n : Nat) (e : Error) : Prop := visit n = .error e

/-- the slots in the relationships of an object, in the order of names -/
def Object.slots (o : Object) : List Nat := o.relations.entries.flatMap fun e => e.2.slots

theorem Object.mem_slots_iff {o : Object} {n : Nat} :
    n ∈ o.slots ↔ ∃ name r, o.relations.get? name = some r ∧ n ∈ r.slots := by
  rw [slots, List.mem_flatMap, Prod.exists]
  simp only [Dict.mem_entries_iff]

section
variable (visit : Visit)

theorem judges_visit (n : Nat) : Judges visit.Answers visit.Fails [n] (visit n) := by
  cases h : visit n with
  | ok j => exact judges_ok ⟨j, h⟩ j
  | error e => exact judges_error h

theorem judges_visitAll (slots : List Nat) :
    Judges visit.Answers visit.Fails slots (visitAll visit slots) := by
  induction slots with
  | nil => exact judges_nil _
  | cons n rest ih => exact (judges_visit visit n).bind fun _ _ => ih.map _

theorem Related.judges_document (unsaved : Bool) (r : Related) :
    Judges visit.Answers visit.Fails r.slots (r.document visit unsaved) := by
  cases r with
  | deferred c => exact judges_nil _
  | one slot =>
    cases slot with
    | none => exact judges_nil _
    | some n => exact judges_visit visit n
  | many slots => exact (judges_visitAll visit slots).map _

theorem judges_relationsDocument (unsaved : Bool) (entries : List (String × Related)) :
    Judges visit.Answers visit.Fails (entries.flatMap fun e => e.2.slots)
      (relationsDocument visit unsaved entries) := by
  induction entries with
  | nil => exact judges_nil _
  | cons e rest ih =>
    rw [List.flatMap_cons]
    exact (Related.judges_document visit unsaved e.2).bind fun _ _ => ih.map _

/-- an object has a document unless it fails with the first of its slots that does -/
theorem Object.judges_document (o : Object) :
    Judges visit.Answers visit.Fails o.slots (o.document visit) :=
  (judges_relationsDocument visit o.isUnsaved o.relations.entries).map _

variable {visit}

theorem Visit.Fails.not_answers (n : Nat) (e : Error) (h : visit.Fails n e) :
    ¬ visit.Answers n := by
  rintro ⟨j, hj⟩
  cases hj.symm.trans h

theorem exists_visitAll_iff {slots : List Nat} :
    (∃ items, visitAll visit slots = .ok items) ↔ ∀ n ∈ slots, visit.Answers n :=
  (judges_visitAll visit slots).exists_ok_iff Visit.Fails.not_answers

theorem Related.exists_document_iff (unsaved : Bool) {r : Related} :
    (∃ j, r.document visit unsaved = .ok j) ↔ ∀ n ∈ r.slots, visit.Answers n :=
  (r.judges_document visit unsaved).exists_ok_iff Visit.Fails.not_answers

theorem Object.exists_document_iff {o : Object} :
    (∃ j, o.document visit = .ok j) ↔ ∀ n ∈ o.slots, visit.Answers n :=
  (o.judges_document visit).exists_ok_iff Visit.Fails.not_answers

end

/-! ## graphs -/

/-- the roots and all relationships refer to objects -/
structure Graph.Closed (g : Graph) : Prop where
  roots : ∀ n ∈ g.roots, ∃ o, g.object? n = some o
  relations : ∀ i o name r, g.object? i = some o → o.relations.get? name = some r →
    ∀ n ∈ r.slots, ∃ o', g.object? n = some o'

namespace Graph.Closed

variable {g : Graph} (hg : g.Closed)
include hg

/-- the induction is on the number of identities that are not on the path, since an object is only
followed into its relationships when it is not -/
theorem visit (path : List Identity) {n : Nat} (h : ∃ o, g.object? n = some o) :
    ∃ j, g.visit path n = .ok j := by
  obtain ⟨k, hk⟩ : ∃ k, g.unvisited path = k := ⟨_, rfl⟩
  induction k using Nat.strongRecOn generalizing path n with
  | ind k ih =>
    subst hk
    obtain ⟨o, ho⟩ := h
    rw [Graph.visit]
    split
    · rename_i hnone
      rw [ho] at hnone
      cases hnone
    rename_i o' ho'
    split
    · exact ⟨none, rfl⟩
    rename_i hpath
    have hlt := unvisited_cons_lt ho' hpath
    obtain ⟨j, hj⟩ := Object.exists_document_iff.mpr fun i hi => by
      obtain ⟨name, r, hr, hi⟩ := Object.mem_slots_iff.mp hi
      exact ih _ hlt _ (hg.relations n o' name r ho' hr i hi) rfl
    exact ⟨some j, by rw [hj, map_ok]⟩

theorem document : ∃ j, g.document = .ok j := by
  obtain ⟨items, hitems⟩ := exists_visitAll_iff.mpr fun n hn => hg.visit [] (hg.roots n hn)
  exact ⟨.array items, by rw [Graph.document, hitems, map_ok]⟩

end Graph.Closed

/-- an object refers to objects of rows that some matching rows contain -/
theorem Query.Populates.closed {st : Store} {c : Coercions} {q : Query} {slot : StoredRow → Nat}
    {g : Graph} (hg : q.Populates st c slot g) : g.Closed := by
  refine ⟨fun n hn => ?_, fun i o name r ho hr n hn => ?_⟩
  · obtain ⟨t, ht, hslot⟩ := (hg.roots n).mp hn
    exact (hg.occupied n).mpr ⟨t.row, ht.binds_row, hslot⟩
  · obtain ⟨row, m, hrow, rfl, -⟩ := hg.objects i o ho
    obtain ⟨child, -, hchild, hslot⟩ := hg.requests hrow ho hr hn
    exact (hg.occupied n).mpr ⟨child, hchild, hslot⟩

end NestedQuery
