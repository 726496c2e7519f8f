import NestedQuery.Graph.Loading
import NestedQuery.Proofs.Dict
import NestedQuery.Proofs.Schema.Variants

/-!
# Objects of rows

What makes two rows one object, and what an object looks like after other objects were added to
its relationships.

* `Schema.identity`      what makes two rows one object;
* `Link`                 a row for a block inside of a block with another row;
* `Related.Holds`        a relationship to which the objects of some slots were added;
* `Object.Loaded`        an object of a row, with such relationships;
* `Object.Loaded.attach` one more object in a relationship.
-/

namespace NestedQuery

/-! ## identities -/

/-- the model that rows of an identity were inserted into -/
def RowIdentity.model : RowIdentity → String
  | keyed model _ => model
  | placed model _ => model

theorem RowIdentity.model_of (m : Model) (r : StoredRow) : (of m r).model = r.model := by
  unfold of
  split <;> rfl

/-- what makes a row one object with others; a row of an unknown model is known by its place -/
def Schema.identity (s : Schema) (r : StoredRow) : RowIdentity :=
  match s.model? r.model with
  | some m => .of m r
  | none => .placed r.model r.place

theorem Schema.identity_eq {s : Schema} {r : StoredRow} {m : Model}
    (hm : s.model? r.model = some m) : s.identity r = .of m r := by
  rw [identity, hm]

theorem Schema.model_identity (s : Schema) (r : StoredRow) : (s.identity r).model = r.model := by
  unfold identity
  split
  · exact RowIdentity.model_of _ r
  · rfl

theorem Schema.model_eq_of_identity_eq {s : Schema} {r r' : StoredRow}
    (h : s.identity r = s.identity r') : r.model = r'.model := by
  rw [← s.model_identity r, h, s.model_identity]

/-! ## relationships -/

/-- a row for a block of a name, and the row for the block around it -/
structure Link where
  parent : StoredRow
  name : String
  child : StoredRow

/-- a relationship of a cardinality to which the objects of the slots in `targets` were added: it
is loaded if there are any, with one of them or with each of them once -/
inductive Related.Holds (c : Cardinality) (targets : Nat → Prop) : Related → Prop
  | deferred (h : ∀ n, ¬ targets n) : Holds c targets (.deferred c)
  | one {n : Nat} (hc : c = .one) (h : targets n) : Holds c targets (.one (some n))
  | many {slots : List Nat} (hc : c = .many) (hne : slots ≠ []) (hnd : slots.Nodup)
      (h : ∀ n, n ∈ slots ↔ targets n) : Holds c targets (.many slots)

theorem Related.Holds.adding {c : Cardinality} {targets : Nat → Prop} {r : Related}
    (h : r.Holds c targets) (slot : Nat) :
    (adding c slot (some r)).Holds c fun n => targets n ∨ n = slot := by
  cases h with
  | deferred h =>
    cases c with
    | one => exact .one rfl (Or.inr rfl)
    | many =>
      show Related.Holds _ _ (.many [slot])
      refine .many rfl (List.cons_ne_nil _ _) (List.nodup_singleton slot) fun n => ?_
      rw [List.mem_singleton, or_iff_right (h n)]
  | one hc h =>
    subst hc
    exact .one rfl (Or.inr rfl)
  | @many slots hc hne hnd h =>
    subst hc
    show Related.Holds _ _ (.many (if slots.contains slot then slots else slots ++ [slot]))
    by_cases hs : slot ∈ slots
    · rw [if_pos (List.contains_iff_mem.mpr hs)]
      refine .many rfl hne hnd fun n => ⟨fun hn => Or.inl ((h n).mp hn), ?_⟩
      rintro (hn | rfl)
      · exact (h n).mpr hn
      · exact hs
    · rw [if_neg (mt List.contains_iff_mem.mp hs)]
      refine .many rfl (List.append_ne_nil_of_left_ne_nil hne _) ?_ fun n => ?_
      · exact List.nodup_append.mpr ⟨hnd, List.nodup_singleton slot, fun a ha b hb hab =>
          hs (List.mem_singleton.mp hb ▸ hab ▸ ha)⟩
      · rw [List.mem_append, List.mem_singleton, h n]

theorem Related.Holds.isLoaded_iff {c : Cardinality} {targets : Nat → Prop} {r : Related}
    (h : r.Holds c targets) : r.isLoaded = true ↔ ∃ n, targets n := by
  cases h with
  | deferred h => exact ⟨fun he => (nomatch he), fun ⟨n, hn⟩ => absurd hn (h n)⟩
  | @one n hc h => exact ⟨fun _ => ⟨n, h⟩, fun _ => rfl⟩
  | many hc hne hnd h =>
    obtain ⟨n, hn⟩ := List.exists_mem_of_ne_nil _ hne
    exact ⟨fun _ => ⟨n, (h n).mp hn⟩, fun _ => rfl⟩

/-- an object of a row, to whose relationships the objects of some slots were added -/
structure Object.Loaded (m : Model) (r : StoredRow) (targets : String → Nat → Prop)
    (o : Object) : Prop where
  model : o.model = r.model
  key : o.key = some (Store.keyOf m r.row)
  state : o.state = .persistent
  fields : o.fields = m.attributes.map fun name _ => r.value name
  relations : ∀ name, Option.Rel
    (fun rel related => Related.Holds rel.cardinality (targets name) related)
    (m.relationships.get? name) (o.relations.get? name)

theorem Object.loaded_ofRow (m : Model) (r : StoredRow) {targets : String → Nat → Prop}
    (h : ∀ name n, ¬ targets name n) : (Object.ofRow m r).Loaded m r targets := by
  refine ⟨rfl, rfl, rfl, rfl, fun name => ?_⟩
  show Option.Rel _ _ ((m.relationships.map _).get? name)
  rw [Dict.get?_map]
  cases m.relationships.get? name with
  | none => exact .none
  | some rel => exact .some (.deferred (h name))

section
variable {m : Model} {r : StoredRow} {targets : String → Nat → Prop} {o : Object}
  (h : o.Loaded m r targets) {name : String}
include h

theorem Object.Loaded.exists_related {rel : Relationship}
    (hrel : m.relationships.get? name = some rel) :
    ∃ related, o.relations.get? name = some related ∧
      related.Holds rel.cardinality (targets name) := by
  have hname := h.relations name
  rw [hrel] at hname
  cases hrelated : o.relations.get? name with
  | none =>
    rw [hrelated] at hname
    cases hname
  | some related =>
    rw [hrelated] at hname
    cases hname with
    | some hholds => exact ⟨related, rfl, hholds⟩

theorem Object.Loaded.exists_relationship {related : Related}
    (hrelated : o.relations.get? name = some related) :
    ∃ rel, m.relationships.get? name = some rel ∧
      related.Holds rel.cardinality (targets name) := by
  cases hrel : m.relationships.get? name with
  | none =>
    have hname := h.relations name
    rw [hrel, hrelated] at hname
    cases hname
  | some rel =>
    obtain ⟨related', hrelated', hholds⟩ := h.exists_related hrel
    rw [hrelated] at hrelated'
    cases hrelated'
    exact ⟨rel, rfl, hholds⟩

theorem Object.Loaded.attach {rel : Relationship} (hrel : m.relationships.get? name = some rel)
    (slot : Nat) :
    (o.attach name rel.cardinality slot).Loaded m r
      fun name' n => targets name' n ∨ (name' = name ∧ n = slot) := by
  refine ⟨h.model, h.key, h.state, h.fields, fun name' => ?_⟩
  show Option.Rel _ _ ((o.relations.insert name _).get? name')
  rw [Dict.get?_insert]
  by_cases hn : name' = name
  · subst hn
    obtain ⟨related, hrelated, hholds⟩ := h.exists_related hrel
    rw [if_pos rfl, hrel, hrelated]
    simp only [true_and]
    exact .some (hholds.adding slot)
  · rw [if_neg hn]
    simp only [hn, false_and, or_false]
    exact h.relations name'

theorem Object.Loaded.isLoaded_iff
    (hdeclared : ∀ n, targets name n → ∃ rel, m.relationships.get? name = some rel) :
    o.isLoaded name = true ↔ ∃ n, targets name n := by
  rw [Object.isLoaded]
  cases hrelated : o.relations.get? name with
  | none =>
    refine ⟨nofun, fun ⟨n, hn⟩ => ?_⟩
    obtain ⟨rel, hrel⟩ := hdeclared n hn
    obtain ⟨related, hrelated', -⟩ := h.exists_related hrel
    rw [hrelated] at hrelated'
    cases hrelated'
  | some related =>
    obtain ⟨rel, -, hholds⟩ := h.exists_relationship hrelated
    exact hholds.isLoaded_iff

end

end NestedQuery
