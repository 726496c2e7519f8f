/-!
# Dictionaries in key order

A dictionary from names to values, kept as the list of its entries with strictly increasing
keys, so that two dictionaries with the same look-ups are equal.

* `Dict.get?`, `Dict.insert`, `Dict.ofList`   look-up, and writes that replace;
* `Dict.overlay`         the entries of one dictionary over those of another;
* `Dict.get?_insert`     what a write does to every look-up;
* `Dict.ext_get?`        a dictionary is determined by its look-ups.
-/

namespace NestedQuery

universe u v

/-- entries with strictly increasing keys -/
abbrev Dict.Ordered {α : Type u} (entries : List (String × α)) : Prop :=
  entries.Pairwise (fun a b => a.1 < b.1)

/-- a finite map from names to values, in key order -/
structure Dict (α : Type u) where
  entries : List (String × α)
  ordered : Dict.Ordered entries
deriving DecidableEq

namespace Dict

variable {α : Type u} {β : Type v}

def empty : Dict α := ⟨[], .nil⟩

instance : EmptyCollection (Dict α) := ⟨empty⟩
instance : Inhabited (Dict α) := ⟨empty⟩

/-- the value of the first entry with the key -/
def lookIn (key : String) : List (String × α) → Option α
  | [] => none
  | e :: rest => if key = e.1 then some e.2 else lookIn key rest

theorem lookIn_cons (key : String) (e : String × α) (rest : List (String × α)) :
    lookIn key (e :: rest) = if key = e.1 then some e.2 else lookIn key rest := rfl

def get? (d : Dict α) (key : String) : Option α := lookIn key d.entries

def contains (d : Dict α) (key : String) : Bool := (d.get? key).isSome

def keys (d : Dict α) : List String := d.entries.map (·.1)

def values (d : Dict α) : List α := d.entries.map (·.2)

def size (d : Dict α) : Nat := d.entries.length

/-! ## writing one entry -/

/-- the entries with `key` bound to `value`, an older binding of `key` replaced -/
def place (key : String) (value : α) : List (String × α) → List (String × α)
  | [] => [(key, value)]
  | e :: rest =>
    if key < e.1 then (key, value) :: e :: rest
    else if key = e.1 then (key, value) :: rest
    else e :: place key value rest

theorem fst_of_mem_place {key : String} {value : α} {entries : List (String × α)}
    {e : String × α} (h : e ∈ place key value entries) : e = (key, value) ∨ e ∈ entries := by
  induction entries with
  | nil => exact .inl (List.mem_singleton.mp h)
  | cons x rest ih =>
    unfold place at h
    split at h
    · rcases List.mem_cons.mp h with h | h
      · exact .inl h
      · exact .inr h
    · split at h
      · rcases List.mem_cons.mp h with h | h
        · exact .inl h
        · exact .inr (List.mem_cons_of_mem _ h)
      · rcases List.mem_cons.mp h with h | h
        · exact .inr (h ▸ List.mem_cons_self)
        · rcases ih h with h | h
          · exact .inl h
          · exact .inr (List.mem_cons_of_mem _ h)

theorem lt_of_not_lt_of_ne {a b : String} (h : ¬ a < b) (hne : a ≠ b) : b < a := by
  rcases Decidable.em (b < a) with h' | h'
  · exact h'
  · exact absurd (String.le_antisymm (String.not_lt.mp h') (String.not_lt.mp h)) hne

theorem ordered_place (key : String) (value : α) {entries : List (String × α)}
    (h : Ordered entries) : Ordered (place key value entries) := by
  induction entries with
  | nil => exact List.pairwise_singleton _ _
  | cons x rest ih =>
    have hx := List.pairwise_cons.mp h
    unfold place
    split
    · rename_i hlt
      refine List.pairwise_cons.mpr ⟨fun e he => ?_, h⟩
      rcases List.mem_cons.mp he with rfl | he
      · exact hlt
      · exact String.lt_trans hlt (hx.1 e he)
    · split
      · rename_i heq
        refine List.pairwise_cons.mpr ⟨fun e he => ?_, hx.2⟩
        have hxe := hx.1 e he
        exact heq ▸ hxe
      · rename_i hlt hne
        refine List.pairwise_cons.mpr ⟨fun e he => ?_, ih hx.2⟩
        rcases fst_of_mem_place he with rfl | he
        · exact lt_of_not_lt_of_ne hlt hne
        · exact hx.1 e he

/-- bind `key` to `value`, replacing an older binding -/
def insert (d : Dict α) (key : String) (value : α) : Dict α :=
  ⟨place key value d.entries, ordered_place key value d.ordered⟩

/-- the dictionary of a list of bindings; of two with one key the later counts -/
def ofList (bindings : List (String × α)) : Dict α :=
  bindings.foldl (fun d e => d.insert e.1 e.2) empty

/-- the entries of `d`, over those of `base` -/
def overlay (d base : Dict α) : Dict α :=
  d.entries.foldl (fun acc e => acc.insert e.1 e.2) base

/-- change every value, with its key in view -/
def map (f : String → α → β) (d : Dict α) : Dict β where
  entries := d.entries.map fun e => (e.1, f e.1 e.2)
  ordered := List.pairwise_map.mpr d.ordered

/-! ## look-ups -/

theorem get?_empty (key : String) : (empty : Dict α).get? key = none := rfl

theorem lookIn_place (key key' : String) (value : α) (entries : List (String × α)) :
    lookIn key' (place key value entries) =
      if key' = key then some value else lookIn key' entries := by
  induction entries with
  | nil => rfl
  | cons x rest ih =>
    unfold place
    split
    · rfl
    · split
      · rename_i heq
        rw [lookIn_cons, lookIn_cons, ← heq]
        split <;> rfl
      · rename_i hne
        rw [lookIn_cons, lookIn_cons, ih]
        split
        · rename_i hk
          rw [if_neg fun h => hne (h.symm.trans hk)]
        · rfl

@[simp] theorem get?_insert (d : Dict α) (key key' : String) (value : α) :
    (d.insert key value).get? key' = if key' = key then some value else d.get? key' :=
  lookIn_place key key' value d.entries

theorem lookIn_eq_none_of_lt {key : String} {entries : List (String × α)}
    (h : ∀ e ∈ entries, key < e.1) : lookIn key entries = none := by
  induction entries with
  | nil => rfl
  | cons x rest ih =>
    have hlt := h x List.mem_cons_self
    rw [lookIn_cons, if_neg fun he => String.lt_irrefl _ (he ▸ hlt)]
    exact ih fun e he => h e (List.mem_cons_of_mem _ he)

theorem lookIn_head (x : String × α) (rest : List (String × α)) :
    lookIn x.1 (x :: rest) = some x.2 := by
  rw [lookIn_cons, if_pos rfl]

/-- a key below every other one of an ordered list is not bound in it -/
theorem lookIn_eq_none_of_lt_head {key : String} {y : String × α} {rest : List (String × α)}
    (hlt : key < y.1) (h : Ordered (y :: rest)) : lookIn key (y :: rest) = none := by
  refine lookIn_eq_none_of_lt fun e he => ?_
  rcases List.mem_cons.mp he with rfl | he
  · exact hlt
  · exact String.lt_trans hlt ((List.pairwise_cons.mp h).1 e he)

theorem entries_eq_of_lookIn {a b : List (String × α)} (ha : Ordered a) (hb : Ordered b)
    (h : ∀ key, lookIn key a = lookIn key b) : a = b := by
  induction a generalizing b with
  | nil =>
    cases b with
    | nil => rfl
    | cons y rest =>
      have := h y.1
      rw [lookIn_head] at this
      cases this
  | cons x a ih =>
    have hx := List.pairwise_cons.mp ha
    cases b with
    | nil =>
      have := h x.1
      rw [lookIn_head] at this
      cases this
    | cons y b =>
      have hy := List.pairwise_cons.mp hb
      have hkey : x.1 = y.1 := by
        rcases Decidable.em (x.1 < y.1) with hlt | hlt
        · have := h x.1
          rw [lookIn_head, lookIn_eq_none_of_lt_head hlt hb] at this
          cases this
        · rcases Decidable.em (x.1 = y.1) with heq | hne
          · exact heq
          · have := h y.1
            rw [lookIn_head, lookIn_eq_none_of_lt_head (lt_of_not_lt_of_ne hlt hne) ha] at this
            cases this
      have hval : x.2 = y.2 := by
        have := h x.1
        rw [lookIn_head, hkey, lookIn_head] at this
        exact Option.some.inj this
      have hxy : x = y := Prod.ext hkey hval
      subst hxy
      refine congrArg _ (ih hx.2 hy.2 fun key => ?_)
      rcases Decidable.em (key = x.1) with hk | hk
      · rw [hk, lookIn_eq_none_of_lt hx.1, lookIn_eq_none_of_lt hy.1]
      · have := h key
        rwa [lookIn_cons, lookIn_cons, if_neg hk, if_neg hk] at this

/-- a dictionary is determined by its look-ups -/
theorem ext_get? {a b : Dict α} (h : ∀ key, a.get? key = b.get? key) : a = b := by
  cases a with
  | mk ea ha =>
    cases b with
    | mk eb hb =>
      have := entries_eq_of_lookIn ha hb h
      subst this
      rfl

end Dict

end NestedQuery
