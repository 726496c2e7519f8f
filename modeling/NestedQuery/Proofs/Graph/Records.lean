import NestedQuery.Proofs.Graph.Objects
import NestedQuery.Proofs.Lists
import NestedQuery.Proofs.Outcome

/-!
# What a loading has recorded

A loading is described by lists: the rows that were placed, those that were placed as roots, and
the links along which objects were attached to each other.  `Loading.Records` says how the objects
follow from these lists alone, and every step of a loading adds to one of them.

* `Loading.slot`           the slot of a row's object;
* `Loading.Records`        the objects of a loading, from its rows, roots and links;
* `Records.place`, `Records.link`, `Records.addRoot`   the steps of a loading.
-/

namespace NestedQuery

namespace Loading
variable {s : Schema} {l : Loading}

/-! ## slots -/

/-- the identities of the objects, slot by slot -/
def identities (l : Loading) : List RowIdentity := l.objects.map (·.1)

/-- the slot of a row's object -/
def slot (l : Loading) (s : Schema) (r : StoredRow) : Nat := l.identities.idxOf (s.identity r)

theorem object?_graph (l : Loading) (n : Nat) :
    l.graph.object? n = (l.objects[n]?).map (·.2) := List.getElem?_map

theorem slotOf?_of_mem {i : RowIdentity} (h : i ∈ l.identities) :
    l.slotOf? i = some (l.identities.idxOf i) := by
  have hlt := List.idxOf_lt_length_iff.mpr h
  have he : l.slotOf? i = l.identities.findIdx? (· == i) := by
    rw [identities, List.findIdx?_map]
    rfl
  rw [he]
  exact List.findIdx?_eq_some_iff_findIdx_eq.mpr ⟨hlt, rfl⟩

theorem slotOf?_of_notMem {i : RowIdentity} (h : i ∉ l.identities) : l.slotOf? i = none := by
  refine List.findIdx?_eq_none_iff.mpr fun e he => ?_
  exact beq_eq_false_iff_ne.mpr fun hi => h (hi ▸ List.mem_map_of_mem he)

/-- with distinct identities, the entry in the slot of a row is the one with its identity -/
theorem slot_eq_iff (hnd : l.identities.Nodup) {r : StoredRow} {n : Nat}
    {e : RowIdentity × Object} (he : l.objects[n]? = some e) :
    l.slot s r = n ↔ s.identity r = e.1 := by
  have hn : l.identities[n]? = some e.1 := by rw [identities, List.getElem?_map, he]; rfl
  obtain ⟨hlt, hget⟩ := List.getElem?_eq_some_iff.mp hn
  constructor
  · intro h
    subst h
    rw [← hget]
    exact (List.getElem_idxOf hlt).symm
  · intro h
    rw [slot, h, ← hget]
    exact hnd.idxOf_getElem n hlt

/-! ## the objects of a loading -/

/-- the slots that links lead to from the objects of an identity, by the names of the links -/
def Targets (s : Schema) (l : Loading) (links : List Link) (i : RowIdentity) (name : String)
    (n : Nat) : Prop :=
  ∃ k ∈ links, s.identity k.parent = i ∧ k.name = name ∧ l.slot s k.child = n

/-- the rows that were placed, those among them that were placed as roots, and the links along
which objects were attached -/
structure Records (s : Schema) (rows roots : List StoredRow) (links : List Link)
    (l : Loading) : Prop where
  nodup : l.identities.Nodup
  mem_iff : ∀ i, i ∈ l.identities ↔ ∃ r ∈ rows, s.identity r = i
  linked : ∀ k ∈ links, k.parent ∈ rows ∧ k.child ∈ rows
  declared : ∀ k ∈ links, ∃ rel, s.relationship? k.parent.model k.name = some rel
  objects : ∀ e ∈ l.objects, ∃ r ∈ rows, ∃ m, s.model? r.model = some m ∧ s.identity r = e.1 ∧
    e.2.Loaded m r (l.Targets s links e.1)
  roots_mem : ∀ r ∈ roots, r ∈ rows
  roots_eq : l.roots = (roots.map (l.slot s)).eraseDups

/-- the slots of some rows are the same in both loadings -/
def Agrees (s : Schema) (l l' : Loading) (rows : List StoredRow) : Prop :=
  ∀ r ∈ rows, l'.slot s r = l.slot s r

theorem Agrees.refl (s : Schema) (l : Loading) (rows : List StoredRow) : l.Agrees s l rows :=
  fun _ _ => rfl

theorem Agrees.trans {l l' l'' : Loading} {rows more : List StoredRow} (h : l.Agrees s l' rows)
    (h' : l'.Agrees s l'' (rows ++ more)) : l.Agrees s l'' rows := fun r hr =>
  (h' r (List.mem_append_left _ hr)).trans (h r hr)

theorem records_empty (s : Schema) : empty.Records s [] [] [] where
  nodup := List.nodup_nil
  mem_iff _ := ⟨fun h => (nomatch h), fun ⟨_, h, _⟩ => (nomatch h)⟩
  linked _ h := nomatch h
  declared _ h := nomatch h
  objects _ h := nomatch h
  roots_mem _ h := nomatch h
  roots_eq := rfl

namespace Records
variable {rows roots : List StoredRow} {links : List Link}

theorem identity_mem (h : l.Records s rows roots links) {r : StoredRow} (hr : r ∈ rows) :
    s.identity r ∈ l.identities := (h.mem_iff _).mpr ⟨r, hr, rfl⟩

theorem exists_object (h : l.Records s rows roots links) {r : StoredRow} (hr : r ∈ rows) :
    ∃ o, l.graph.object? (l.slot s r) = some o := by
  have hlt := List.idxOf_lt_length_iff.mpr (h.identity_mem hr)
  rw [identities, List.length_map] at hlt
  rw [object?_graph]
  exact ⟨_, congrArg (Option.map _) (List.getElem?_eq_getElem hlt)⟩

theorem slot_eq_slot_iff (h : l.Records s rows roots links) {r r' : StoredRow} (hr : r ∈ rows) :
    l.slot s r = l.slot s r' ↔ s.identity r = s.identity r' :=
  List.idxOf_inj (h.identity_mem hr)

theorem targets_eq (h : l.Records s rows roots links) {l' : Loading} (hl : l.Agrees s l' rows)
    (i : RowIdentity) : l'.Targets s links i = l.Targets s links i := by
  funext name n
  refine propext (exists_congr fun k => and_congr_right fun hk => ?_)
  rw [hl k.child (h.linked k hk).2]

theorem roots_eq_of_agrees (h : l.Records s rows roots links) {l' : Loading}
    (hl : l.Agrees s l' rows) (hroots : l'.roots = l.roots) :
    l'.roots = (roots.map (l'.slot s)).eraseDups := by
  rw [hroots, h.roots_eq, List.map_congr_left fun r hr => hl r (h.roots_mem r hr)]

end Records

/-! ## placing -/

/-- a new object at the end -/
def grow (l : Loading) (s : Schema) (m : Model) (r : StoredRow) : Loading :=
  { l with objects := l.objects ++ [(s.identity r, .ofRow m r)] }

section
variable {r : StoredRow} {m : Model}

theorem place_of_mem (hm : s.model? r.model = some m) (hr : s.identity r ∈ l.identities) :
    l.place s r = .ok (l.slot s r, l) := by
  have hslot := slotOf?_of_mem hr
  rw [Schema.identity_eq hm] at hslot
  rw [place, Schema.modelNamed_of_some hm, map_ok]
  dsimp only
  rw [hslot, slot, Schema.identity_eq hm]

theorem place_of_notMem (hm : s.model? r.model = some m) (hr : s.identity r ∉ l.identities) :
    l.place s r = .ok (l.objects.length, l.grow s m r) := by
  have hslot := slotOf?_of_notMem hr
  rw [Schema.identity_eq hm] at hslot
  rw [place, Schema.modelNamed_of_some hm, map_ok]
  dsimp only
  rw [hslot, grow, Schema.identity_eq hm]

theorem identities_grow : (l.grow s m r).identities = l.identities ++ [s.identity r] :=
  List.map_append

theorem slot_grow_of_mem {x : StoredRow} (hx : s.identity x ∈ l.identities) :
    (l.grow s m r).slot s x = l.slot s x := by
  rw [slot, identities_grow, List.idxOf_append_of_mem hx, slot]

theorem slot_grow_self (hr : s.identity r ∉ l.identities) :
    (l.grow s m r).slot s r = l.objects.length := by
  rw [slot, identities_grow, List.idxOf_append_of_notMem hr, List.idxOf_cons_self, identities,
    List.length_map]
  rfl

namespace Records
variable {rows roots : List StoredRow} {links : List Link}

/-- a row whose object is there already -/
theorem again (h : l.Records s rows roots links) (hr : s.identity r ∈ l.identities) :
    l.Records s (rows ++ [r]) roots links where
  nodup := h.nodup
  mem_iff i := by
    rw [exists_mem_concat_iff, ← h.mem_iff]
    constructor
    · exact Or.inl
    · rintro (hi | rfl)
      · exact hi
      · exact hr
  linked k hk :=
    ⟨List.mem_append_left _ (h.linked k hk).1, List.mem_append_left _ (h.linked k hk).2⟩
  declared := h.declared
  objects e he := by
    obtain ⟨x, hx, hrest⟩ := h.objects e he
    exact ⟨x, List.mem_append_left _ hx, hrest⟩
  roots_mem x hx := List.mem_append_left _ (h.roots_mem x hx)
  roots_eq := h.roots_eq

theorem agrees_grow (h : l.Records s rows roots links) : l.Agrees s (l.grow s m r) rows :=
  fun _ hx => slot_grow_of_mem (h.identity_mem hx)

/-- a row of a new identity; no link leads from an object of that identity -/
theorem grow (h : l.Records s rows roots links) (hm : s.model? r.model = some m)
    (hr : s.identity r ∉ l.identities) :
    (l.grow s m r).Records s (rows ++ [r]) roots links where
  nodup := by
    rw [identities_grow, ← List.concat_eq_append]
    exact h.nodup.concat hr
  mem_iff i := by
    rw [identities_grow, List.mem_append, List.mem_singleton, h.mem_iff, exists_mem_concat_iff]
    exact or_congr_right eq_comm
  linked k hk :=
    ⟨List.mem_append_left _ (h.linked k hk).1, List.mem_append_left _ (h.linked k hk).2⟩
  declared := h.declared
  objects e he := by
    rcases List.mem_append.mp he with he | he
    · obtain ⟨x, hx, hrest⟩ := h.objects e he
      refine ⟨x, List.mem_append_left _ hx, ?_⟩
      rw [h.targets_eq h.agrees_grow]
      exact hrest
    · cases List.mem_singleton.mp he
      refine ⟨r, List.mem_append_right _ (List.mem_singleton_self r), m, hm, rfl, ?_⟩
      refine Object.loaded_ofRow m r fun name n => ?_
      -- the parent of a link was placed before, so that its identity is not a new one
      rintro ⟨k, hk, hki, -⟩
      have hmem := h.identity_mem (h.linked k hk).1
      rw [hki] at hmem
      exact hr hmem
  roots_mem x hx := List.mem_append_left _ (h.roots_mem x hx)
  roots_eq := h.roots_eq_of_agrees h.agrees_grow rfl

theorem place (h : l.Records s rows roots links) (hm : s.model? r.model = some m) :
    ∃ l', l.place s r = .ok (l'.slot s r, l') ∧ l'.Records s (rows ++ [r]) roots links ∧
      l.Agrees s l' rows := by
  by_cases hr : s.identity r ∈ l.identities
  · exact ⟨l, place_of_mem hm hr, h.again hr, .refl s l rows⟩
  · refine ⟨l.grow s m r, ?_, h.grow hm hr, h.agrees_grow⟩
    rw [place_of_notMem hm hr, slot_grow_self hr]

end Records

end

/-! ## attaching -/

/-- objects change without their identities -/
theorem identities_modify (l : Loading) (n : Nat) (f : Object → Object) :
    identities { l with objects := l.objects.modify n fun e => (e.1, f e.2) } = l.identities := by
  refine List.ext_getElem? fun k => ?_
  rw [identities, identities, List.getElem?_map, List.getElem?_map, List.getElem?_modify,
    Option.map_eq_map, Option.map_map]
  refine congrArg (Option.map · _) (funext fun e => ?_)
  show (if n = k then (e.1, f e.2) else e).1 = e.1
  rw [apply_ite Prod.fst, ite_self]

section
variable {k : Link} {rel : Relationship}

/-- an object in a relationship of the object in a slot -/
def link (l : Loading) (s : Schema) (k : Link) (c : Cardinality) : Loading :=
  { l with
    objects := l.objects.modify (l.slot s k.parent) fun e =>
      (e.1, e.2.attach k.name c (l.slot s k.child)) }

theorem attach_eq (hrel : s.relationship? k.parent.model k.name = some rel) :
    l.attach s k.parent (l.slot s k.parent) k.name (l.slot s k.child) =
      .ok (l.link s k rel.cardinality) := by
  rw [attach, Schema.relationshipOf_ok_iff.mpr hrel, map_ok, link]

theorem getElem?_link (c : Cardinality) (n : Nat) :
    (l.link s k c).objects[n]? = l.objects[n]?.map fun e =>
      if l.slot s k.parent = n then (e.1, e.2.attach k.name c (l.slot s k.child)) else e :=
  List.getElem?_modify _ _ _ _

theorem identities_link (c : Cardinality) : (l.link s k c).identities = l.identities :=
  identities_modify l _ fun o => o.attach k.name c (l.slot s k.child)

theorem slot_link (c : Cardinality) (r : StoredRow) : (l.link s k c).slot s r = l.slot s r := by
  rw [slot, identities_link, slot]

theorem agrees_link (k : Link) (c : Cardinality) (rows : List StoredRow) :
    l.Agrees s (l.link s k c) rows := fun r _ => slot_link c r

namespace Records
variable {rows roots : List StoredRow} {links : List Link}

/-- one link more leads to one slot more, from the objects of its parent's identity -/
theorem targets_link (h : l.Records s rows roots links) (c : Cardinality) (i : RowIdentity)
    (name : String) (n : Nat) :
    (l.link s k c).Targets s (links ++ [k]) i name n ↔
      l.Targets s links i name n ∨
        (s.identity k.parent = i ∧ k.name = name ∧ l.slot s k.child = n) := by
  rw [← h.targets_eq (agrees_link k c rows), Targets, exists_mem_concat_iff, slot_link]
  exact Iff.rfl

theorem link (h : l.Records s rows roots links) (hp : k.parent ∈ rows) (hc : k.child ∈ rows)
    (hrel : s.relationship? k.parent.model k.name = some rel) :
    (l.link s k rel.cardinality).Records s rows roots (links ++ [k]) where
  nodup := by
    rw [identities_link]
    exact h.nodup
  mem_iff i := by rw [identities_link, h.mem_iff]
  linked := forall_mem_concat_iff.mpr ⟨h.linked, hp, hc⟩
  declared := forall_mem_concat_iff.mpr ⟨h.declared, rel, hrel⟩
  objects e he := by
    obtain ⟨n, hn⟩ := List.getElem?_of_mem he
    rw [getElem?_link] at hn
    obtain ⟨e₀, he₀, he⟩ := Option.map_eq_some_iff.mp hn
    obtain ⟨r, hr, m, hm, hi, hloaded⟩ := h.objects e₀ (List.mem_of_getElem? he₀)
    refine ⟨r, hr, m, hm, ?_⟩
    by_cases hslot : l.slot s k.parent = n
    · -- the object of the parent, whose row may be another one of the same identity
      have hpi := (slot_eq_iff h.nodup he₀).mp hslot
      rw [if_pos hslot] at he
      subst he
      refine ⟨hi, ?_⟩
      have hmodel : k.parent.model = r.model := Schema.model_eq_of_identity_eq (hpi.trans hi.symm)
      have hmrel : m.relationships.get? k.name = some rel := by
        rw [hmodel, Schema.relationship?, hm] at hrel
        exact hrel
      have htargets : (l.link s k rel.cardinality).Targets s (links ++ [k]) e₀.1 =
          fun name n => l.Targets s links e₀.1 name n ∨
            (name = k.name ∧ n = l.slot s k.child) := by
        funext name n
        rw [h.targets_link, hpi, and_iff_right rfl, eq_comm (a := k.name),
          eq_comm (a := l.slot s k.child)]
      rw [htargets]
      exact hloaded.attach hmrel _
    · have hpi : s.identity k.parent ≠ e₀.1 := mt (slot_eq_iff h.nodup he₀).mpr hslot
      rw [if_neg hslot] at he
      subst he
      refine ⟨hi, ?_⟩
      have htargets : (l.link s k rel.cardinality).Targets s (links ++ [k]) e₀.1 =
          l.Targets s links e₀.1 := by
        funext name n
        rw [h.targets_link, or_iff_left fun hk => hpi hk.1]
      rw [htargets]
      exact hloaded
  roots_mem := h.roots_mem
  roots_eq := h.roots_eq_of_agrees (agrees_link k _ rows) rfl

end Records

end

/-! ## roots -/

namespace Records
variable {rows roots : List StoredRow} {links : List Link}

theorem addRoot (h : l.Records s rows roots links) {r : StoredRow} (hr : r ∈ rows) :
    (l.addRoot (l.slot s r)).Records s rows (roots ++ [r]) links := by
  have hobjects : (l.addRoot (l.slot s r)).objects = l.objects := by
    rw [Loading.addRoot]
    split <;> rfl
  have hids : (l.addRoot (l.slot s r)).identities = l.identities := by
    rw [identities, hobjects, identities]
  have hagrees : l.Agrees s (l.addRoot (l.slot s r)) rows := fun x _ => by
    rw [slot, hids, slot]
  refine ⟨by rw [hids]; exact h.nodup, fun i => by rw [hids, h.mem_iff], h.linked, h.declared,
    fun e he => ?_, forall_mem_concat_iff.mpr ⟨h.roots_mem, hr⟩, ?_⟩
  · rw [hobjects] at he
    obtain ⟨x, hx, m, hm, hi, hloaded⟩ := h.objects e he
    refine ⟨x, hx, m, hm, hi, ?_⟩
    rw [h.targets_eq hagrees]
    exact hloaded
  · have hslots : (roots ++ [r]).map ((l.addRoot (l.slot s r)).slot s) =
        roots.map (l.slot s) ++ [l.slot s r] := by
      rw [List.map_append]
      refine congrArg₂ _ (List.map_congr_left fun x hx => hagrees x (h.roots_mem x hx)) ?_
      exact congrArg (fun n => [n]) (hagrees r hr)
    have hmem : l.roots.contains (l.slot s r) = true ↔ l.slot s r ∈ roots.map (l.slot s) := by
      rw [List.contains_iff_mem, h.roots_eq, List.mem_eraseDups]
    rw [hslots, eraseDups_concat, ← h.roots_eq, Loading.addRoot]
    by_cases hroot : l.slot s r ∈ roots.map (l.slot s)
    · rw [if_pos hroot, if_pos (hmem.mpr hroot)]
    · rw [if_neg hroot, if_neg (mt hmem.mp hroot)]

end Records

end Loading

end NestedQuery
