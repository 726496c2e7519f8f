import Mathlib.Data.List.Induction
import Mathlib.Data.List.Nodup
import NestedQuery.Dict

/-!
# Look-ups in dictionaries

What the ways to make a dictionary do to its look-ups.

* `Dict.mem_entries_iff`     the entries are the successful look-ups;
* `Dict.get?_map`            a change of every value;
* `Dict.keys_eq_of_isSome`   dictionaries with the same keys;
* `Dict.get?_overlay`        the upper dictionary first, then the lower one;
* `Dict.get?_ofList`         a dictionary made of a list with distinct keys has its bindings;
* `Dict.ofList_overlay`      a dictionary made of a list is written over another one.
-/

namespace NestedQuery.Dict

universe u v
variable {α : Type u} {β : Type v}

theorem nodup_keys (d : Dict α) : d.keys.Nodup := by
  refine List.pairwise_map.mpr (d.ordered.imp fun {a b} h he => ?_)
  rw [he] at h
  exact String.lt_irrefl _ h

theorem lookIn_eq_none_of_notMem {key : String} {entries : List (String × α)}
    (h : key ∉ entries.map (·.1)) : lookIn key entries = none := by
  induction entries with
  | nil => rfl
  | cons e rest ih =>
    rw [List.map_cons, List.mem_cons, not_or] at h
    rw [lookIn_cons, if_neg h.1, ih h.2]

theorem mem_of_lookIn_eq_some {key : String} {value : α} {entries : List (String × α)}
    (h : lookIn key entries = some value) : (key, value) ∈ entries := by
  induction entries with
  | nil => cases h
  | cons e rest ih =>
    rw [lookIn_cons] at h
    by_cases hk : key = e.1
    · rw [if_pos hk] at h
      cases h
      rw [hk]
      exact List.mem_cons_self
    · rw [if_neg hk] at h
      exact List.mem_cons_of_mem _ (ih h)

theorem lookIn_eq_some_of_mem {key : String} {value : α} {entries : List (String × α)}
    (hd : (entries.map (·.1)).Nodup) (h : (key, value) ∈ entries) :
    lookIn key entries = some value := by
  induction entries with
  | nil => cases h
  | cons e rest ih =>
    rw [List.map_cons, List.nodup_cons] at hd
    rw [lookIn_cons]
    rcases List.mem_cons.mp h with rfl | h
    · exact if_pos rfl
    · have hne : key ≠ e.1 := fun hk =>
        hd.1 (hk ▸ List.mem_map_of_mem (f := fun x : String × α => x.1) h)
      rw [if_neg hne, ih hd.2 h]

theorem mem_entries_iff {d : Dict α} {key : String} {value : α} :
    (key, value) ∈ d.entries ↔ d.get? key = some value :=
  ⟨lookIn_eq_some_of_mem d.nodup_keys, mem_of_lookIn_eq_some⟩

theorem get?_map (f : String → α → β) (d : Dict α) (key : String) :
    (d.map f).get? key = (d.get? key).map (f key) := by
  show lookIn key (d.entries.map fun e => (e.1, f e.1 e.2)) = (lookIn key d.entries).map (f key)
  induction d.entries with
  | nil => rfl
  | cons e rest ih =>
    rw [List.map_cons, lookIn_cons, lookIn_cons, ih]
    by_cases hk : key = e.1
    · rw [if_pos hk, if_pos hk, hk]
      rfl
    · rw [if_neg hk, if_neg hk]

theorem keys_map (f : String → α → β) (d : Dict α) : (d.map f).keys = d.keys := List.map_map

/-- dictionaries that have values for the same keys have the same keys -/
theorem keys_eq_of_isSome {a : Dict α} {b : Dict β}
    (h : ∀ key, (a.get? key).isSome = (b.get? key).isSome) : a.keys = b.keys := by
  have hunit : (a.map fun _ _ => ()) = b.map fun _ _ => () := by
    refine ext_get? fun key => ?_
    have hkey := h key
    rw [get?_map, get?_map]
    cases ha : a.get? key <;> cases hb : b.get? key
    · rfl
    · rw [ha, hb] at hkey
      cases hkey
    · rw [ha, hb] at hkey
      cases hkey
    · rfl
  rw [← keys_map (fun _ _ => ()) a, hunit, keys_map]

/-- the bindings of a list with distinct keys come before older ones -/
theorem get?_foldl_insert {entries : List (String × α)} (h : (entries.map (·.1)).Nodup)
    (base : Dict α) (key : String) :
    (entries.foldl (fun acc e => acc.insert e.1 e.2) base).get? key =
      (lookIn key entries).or (base.get? key) := by
  induction entries generalizing base with
  | nil => rfl
  | cons e rest ih =>
    rw [List.map_cons, List.nodup_cons] at h
    rw [List.foldl_cons, ih h.2, get?_insert, lookIn_cons]
    by_cases hk : key = e.1
    · rw [if_pos hk, if_pos hk, hk, lookIn_eq_none_of_notMem h.1]
      rfl
    · rw [if_neg hk, if_neg hk]

theorem get?_overlay (d base : Dict α) (key : String) :
    (d.overlay base).get? key = (d.get? key).or (base.get? key) :=
  get?_foldl_insert d.nodup_keys base key

theorem overlay_empty (d : Dict α) : d.overlay .empty = d := by
  refine ext_get? fun key => ?_
  rw [get?_overlay, get?_empty, Option.or_none]

theorem get?_ofList {bindings : List (String × α)} (h : (bindings.map (·.1)).Nodup) (key : String) :
    (ofList bindings).get? key = lookIn key bindings := by
  rw [ofList, get?_foldl_insert h, get?_empty, Option.or_none]

/-- bindings written over a dictionary, one after the other -/
def insertList (d : Dict α) (bindings : List (String × α)) : Dict α :=
  bindings.foldl (fun d e => d.insert e.1 e.2) d

theorem insertList_append (d : Dict α) (bindings others : List (String × α)) :
    d.insertList (bindings ++ others) = (d.insertList bindings).insertList others :=
  List.foldl_append

theorem ofList_overlay (bindings : List (String × α)) (base : Dict α) :
    (ofList bindings).overlay base = base.insertList bindings := by
  refine ext_get? fun key => ?_
  rw [get?_overlay]
  induction bindings using List.reverseRecOn with
  | nil => rfl
  | append_singleton bindings e ih =>
    have hlast : ofList (bindings ++ [e]) = (ofList bindings).insert e.1 e.2 :=
      insertList_append empty bindings [e]
    rw [hlast, insertList_append]
    show _ = ((base.insertList bindings).insert e.1 e.2).get? key
    rw [get?_insert, get?_insert]
    by_cases hk : key = e.1
    · rw [if_pos hk, if_pos hk]
      rfl
    · rw [if_neg hk, if_neg hk]
      exact ih

theorem contains_iff {d : Dict α} {key : String} :
    d.contains key = true ↔ ∃ value, d.get? key = some value := Option.isSome_iff_exists

end NestedQuery.Dict
