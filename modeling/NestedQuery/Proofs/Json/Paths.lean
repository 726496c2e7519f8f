import NestedQuery.Graph.Document
import NestedQuery.Proofs.Dict
import NestedQuery.Proofs.Outcome

/-!
# Paths in documents

A path of field names leads from an object of a document into the objects below it, through the
elements of arrays.  An object below another one can only come from a relationship, since no
scalar has a field.

* `Json.Within`                  a value itself, or an element of an array;
* `Json.Path`                    the values at the end of a path of field names;
* `Value.not_within_document`    the document of a scalar is and contains no object;
* `Object.fields_of_document`    a field is what a relationship leaves, or else a scalar;
* `Related.visit_of_within`      the objects below a relationship are those in its slots;
* `Graph.visit_eq_ok`            an object in a document is not on the path to it.
-/

namespace NestedQuery

namespace Json

/-- a value itself, or an element of an array -/
inductive Within (j : Json) : Json → Prop
  | self : Within j j
  | item {items : List Json} (h : j ∈ items) : Within j (.array items)

/-- the values at the end of a path of field names, which goes through the elements of arrays -/
inductive Path : Json → List String → Json → Prop
  | nil (j : Json) : Path j [] j
  | cons {fields : List (String × Json)} {name : String} {rest : List String} {w v j : Json}
      (hfield : (name, w) ∈ fields) (hv : v.Within w) (hrest : Path v rest j) :
      Path (.object fields) (name :: rest) j

/-- a path to an object starts at an object -/
theorem Path.eq_object {j : Json} {names : List String} {fields : List (String × Json)}
    (h : j.Path names (.object fields)) : ∃ own, j = .object own := by
  cases h with
  | nil => exact ⟨fields, rfl⟩
  | @cons own => exact ⟨own, rfl⟩

end Json

/-! ## scalars -/

theorem Value.documentAll_eq_map (items : List Value) :
    documentAll items = items.map document := by
  induction items with
  | nil => rfl
  | cons v rest ih => rw [documentAll, ih, List.map_cons]

theorem Value.document_ne_object (fields : List (String × Json)) :
    ∀ v : Value, v.document ≠ .object fields
  | null | boolean _ | integer _ | string _ | date _ | datetime _ | time _ | uuid _ | list _ => by
    rw [document]
    exact nofun
  | float x | decimal _ => by
    rw [document, documentFloat]
    split <;> exact nofun
  | member _ value => by
    rw [document]
    exact document_ne_object fields value

/-- nor does the document of a scalar contain an object as an element -/
theorem Value.not_within_document (fields : List (String × Json)) :
    ∀ v : Value, ¬ (Json.object fields).Within v.document
  | null | boolean _ | integer _ | string _ | date _ | datetime _ | time _ | uuid _ => by
    rw [document]
    exact nofun
  | float x | decimal _ => by
    rw [document, documentFloat]
    split <;> exact nofun
  | member _ value => by
    rw [document]
    exact not_within_document fields value
  | list items => by
    rw [document, documentAll_eq_map]
    intro h
    cases h with
    | item h =>
      obtain ⟨v, -, hv⟩ := List.mem_map.mp h
      exact document_ne_object fields v hv

/-! ## objects -/

section
variable {visit : Visit}

theorem mem_visitAll {slots : List Nat} {items : List Json} (h : visitAll visit slots = .ok items)
    {j : Json} (hj : j ∈ items) : ∃ n ∈ slots, visit n = .ok (some j) := by
  induction slots generalizing items with
  | nil =>
    cases h
    cases hj
  | cons n rest ih =>
    obtain ⟨first, hfirst, h⟩ := bind_eq_ok.mp h
    obtain ⟨others, hothers, rfl⟩ := map_eq_ok.mp h
    rcases List.mem_append.mp hj with hj | hj
    · refine ⟨n, List.mem_cons_self, ?_⟩
      rw [hfirst, Option.mem_toList.mp hj]
    · obtain ⟨n', hn', hv⟩ := ih hothers hj
      exact ⟨n', List.mem_cons_of_mem _ hn', hv⟩

/-- what a relationship of an object leaves in the document of the object; nothing where there is
none of the name, or where it is left out -/
def Object.shown? (visit : Visit) (o : Object) (name : String) : Option Json :=
  (o.relations.get? name).bind fun r => (r.document visit o.isUnsaved).toOption.join

theorem Object.shown?_eq_some_iff {o : Object} {name : String} {w : Json} :
    o.shown? visit name = some w ↔
      ∃ r, o.relations.get? name = some r ∧ r.document visit o.isUnsaved = .ok (some w) := by
  rw [shown?, Option.bind_eq_some_iff]
  refine exists_congr fun r => and_congr_right fun _ => ?_
  cases r.document visit o.isUnsaved with
  | error e => exact iff_of_false nofun nofun
  | ok j =>
    rw [Except.ok.injEq]
    exact Iff.rfl

theorem keys_relationsDocument {unsaved : Bool} {entries : List (String × Related)}
    {fields : List (String × Json)} (h : relationsDocument visit unsaved entries = .ok fields) :
    (fields.map (·.1)).Sublist (entries.map (·.1)) := by
  induction entries generalizing fields with
  | nil =>
    cases h
    exact .slnil
  | cons e rest ih =>
    obtain ⟨first, hfirst, h⟩ := bind_eq_ok.mp h
    obtain ⟨others, hothers, rfl⟩ := map_eq_ok.mp h
    cases first with
    | none => exact (ih hothers).cons e.1
    | some j => exact (ih hothers).cons_cons e.1

/-- relationships with different names leave what each of them leaves by itself -/
theorem lookIn_relationsDocument {unsaved : Bool} {entries : List (String × Related)}
    (hnd : (entries.map (·.1)).Nodup) {fields : List (String × Json)}
    (h : relationsDocument visit unsaved entries = .ok fields) (name : String) :
    Dict.lookIn name fields =
      (Dict.lookIn name entries).bind fun r => (r.document visit unsaved).toOption.join := by
  induction entries generalizing fields with
  | nil =>
    cases h
    rfl
  | cons e rest ih =>
    obtain ⟨first, hfirst, h⟩ := bind_eq_ok.mp h
    obtain ⟨others, hothers, rfl⟩ := map_eq_ok.mp h
    obtain ⟨hnew, hnd⟩ := List.nodup_cons.mp hnd
    rw [Dict.lookIn_cons]
    by_cases hname : name = e.1
    · subst hname
      have hrest := ih hnd hothers
      rw [Dict.lookIn_eq_none_of_notMem hnew] at hrest
      rw [if_pos rfl, Option.bind_some, hfirst]
      cases first with
      | none => exact hrest
      | some j => exact Dict.lookIn_head (e.1, j) others
    · rw [if_neg hname, ← ih hnd hothers]
      cases first with
      | none => rfl
      | some j => exact (Dict.lookIn_cons ..).trans (if_neg hname)

/-- a field of an object is what a relationship of its name leaves, or else the scalar of the
name -/
theorem Object.fields_of_document {o : Object} {d : Json} (h : o.document visit = .ok d) :
    ∃ fields : Dict Json, d = .ofDict fields ∧ ∀ name, fields.get? name =
      (o.shown? visit name).or ((o.fields.get? name).map Value.document) := by
  obtain ⟨relations, hrelations, rfl⟩ := map_eq_ok.mp h
  refine ⟨_, rfl, fun name => ?_⟩
  have hnd : (relations.map (·.1)).Nodup :=
    o.relations.nodup_keys.sublist (keys_relationsDocument hrelations)
  rw [Dict.get?_overlay, Dict.get?_map, Dict.get?_ofList hnd,
    lookIn_relationsDocument o.relations.nodup_keys hrelations]
  rfl

/-- the fields of an object are its relationships and its scalars -/
theorem Object.field_of_document {o : Object} {d : Json} (h : o.document visit = .ok d) :
    ∃ fields, d = .object fields ∧ ∀ name w, (name, w) ∈ fields →
      (∃ related, o.relations.get? name = some related ∧
        related.document visit o.isUnsaved = .ok (some w)) ∨
      ∃ v, o.fields.get? name = some v ∧ w = v.document := by
  obtain ⟨fields, rfl, hfields⟩ := fields_of_document h
  refine ⟨_, rfl, fun name w hw => ?_⟩
  have hget := Dict.mem_entries_iff.mp hw
  rw [hfields] at hget
  cases hshown : o.shown? visit name with
  | some j =>
    rw [hshown] at hget
    cases hget
    exact .inl (shown?_eq_some_iff.mp hshown)
  | none =>
    rw [hshown, Option.none_or] at hget
    obtain ⟨v, hv, rfl⟩ := Option.map_eq_some_iff.mp hget
    exact .inr ⟨v, hv, rfl⟩

/-- a relationship of a stored object that has a document is loaded -/
theorem Related.isLoaded_of_document {r : Related} {w : Json}
    (h : r.document visit false = .ok (some w)) : r.isLoaded = true := by
  cases r with
  | deferred c => cases h
  | one slot => rfl
  | many slots => rfl

/-- the slots that a relationship refers to -/
def Related.slots : Related → List Nat
  | deferred _ => []
  | one slot => slot.toList
  | many slots => slots

/-- the objects in the document of a relationship are those in its slots -/
theorem Related.visit_of_within {unsaved : Bool}
    (hobject : ∀ n j, visit n = .ok (some j) → ∃ fields, j = .object fields) {r : Related}
    {w : Json} (h : r.document visit unsaved = .ok (some w)) {fields : List (String × Json)}
    (hw : (Json.object fields).Within w) :
    ∃ n ∈ r.slots, visit n = .ok (some (.object fields)) := by
  cases r with
  | deferred c =>
    -- an empty relationship contains no object
    cases unsaved with
    | false => cases h
    | true =>
      cases c <;> cases h <;> cases hw
      rename_i hmem
      cases hmem
  | one slot =>
    cases slot with
    | none =>
      cases h
      cases hw
    | some n =>
      obtain ⟨own, rfl⟩ := hobject n w h
      cases hw with
      | self => exact ⟨n, List.mem_singleton_self n, h⟩
  | many slots =>
    obtain ⟨items, hitems, he⟩ := map_eq_ok.mp h
    cases he
    cases hw with
    | item hmem => exact mem_visitAll hitems hmem

end

/-- an object that is visited is not on the path to it, and has a document below that path -/
theorem Graph.visit_eq_ok {g : Graph} {path : List Identity} {slot : Nat} {j : Json}
    (h : g.visit path slot = .ok (some j)) :
    ∃ o, g.object? slot = some o ∧ Identity.of o slot ∉ path ∧
      o.document (g.visit (Identity.of o slot :: path)) = .ok j := by
  rw [visit] at h
  split at h
  · cases h
  · rename_i o ho
    split at h
    · cases h
    · rename_i hpath
      obtain ⟨d, hd, he⟩ := map_eq_ok.mp h
      cases he
      exact ⟨o, ho, hpath, hd⟩

theorem Graph.visit_object {g : Graph} {path : List Identity} {slot : Nat} {j : Json}
    (h : g.visit path slot = .ok (some j)) : ∃ fields, j = .object fields := by
  obtain ⟨o, -, -, hd⟩ := visit_eq_ok h
  obtain ⟨fields, rfl, -⟩ := Object.field_of_document hd
  exact ⟨fields, rfl⟩

end NestedQuery
