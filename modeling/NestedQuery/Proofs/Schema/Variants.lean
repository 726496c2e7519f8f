import Mathlib.Data.List.Perm.Subperm
import NestedQuery.Proofs.Schema.Sound
import NestedQuery.Schema.Lookup

/-!
# Variants of a model

The variants of a model are listed downward, generation by generation, and recognised upward, by
the line of ancestors.  In a sound schema

* `Schema.Sound.lineage_rec`          an induction from models without a parent to variants;
* `Schema.Sound.variant_rec`          what direct variants take over from their parents holds of
                                      all variants;
* `Schema.Sound.relationship_of_variant`   a variant has the relationships of its base;
* `Schema.Sound.isVariantOf_iff_descendsFrom`   a variant is reached from parent to parent;
* `Schema.IsLevel`                    models of one rank, which have different names;
* `Schema.Sound.mem_variantsOf?_iff`  the models that are listed are the variants;
* `Schema.Sound.nodup_variantsOf?`    no model is listed twice.

A model of rank `k` has `k` ancestors.  These have different names, so that there are fewer of
them than models, and as many generations as there are models reach every variant.
-/

namespace NestedQuery.Schema

/-! ## look-ups -/

theorem modelNamed_ok_iff {s : Schema} {n : String} {m : Model} :
    s.modelNamed n = .ok m ↔ s.model? n = some m := by
  cases h : s.model? n <;> simp [modelNamed, h]

theorem attributeOf_ok_iff {s : Schema} {n k : String} {a : Attribute} :
    s.attributeOf n k = .ok a ↔ s.attribute? n k = some a := by
  cases h : s.model? n with
  | none => simp [attributeOf, attribute?, modelNamed, h, Except.bind]
  | some m => cases ha : m.attributes.get? k <;> simp [attributeOf, attribute?, modelNamed, h, ha,
      Except.bind]

theorem attributeOf_error_iff {s : Schema} {n k : String} {m : Model} {e : Error}
    (hm : s.model? n = some m) :
    s.attributeOf n k = .error e ↔ e = .unknownAttribute n k ∧ m.attributes.get? k = none := by
  rw [attributeOf, modelNamed_of_some hm]
  cases ha : m.attributes.get? k <;> simp [Except.bind, ha, eq_comm]

theorem relationshipOf_ok_iff {s : Schema} {n k : String} {r : Relationship} :
    s.relationshipOf n k = .ok r ↔ s.relationship? n k = some r := by
  cases h : s.model? n with
  | none => simp [relationshipOf, relationship?, modelNamed, h, Except.bind]
  | some m => cases hr : m.relationships.get? k <;> simp [relationshipOf, relationship?,
      modelNamed, h, hr, Except.bind]

theorem relationshipOf_error_iff {s : Schema} {n k : String} {m : Model} {e : Error}
    (hm : s.model? n = some m) :
    s.relationshipOf n k = .error e ↔
      e = .unknownRelationship n k ∧ m.relationships.get? k = none := by
  rw [relationshipOf, modelNamed_of_some hm]
  cases hr : m.relationships.get? k <;> simp [Except.bind, hr, eq_comm]

/-! ## upward -/

theorem isVariantOf_iff {s : Schema} {c b : String} :
    s.isVariantOf c b = true ↔ ∃ m, s.model? c = some m ∧ b ∈ m.lineage := by
  cases h : s.model? c <;> simp [isVariantOf, h]

namespace Sound
variable {s : Schema} (hs : s.Sound)
include hs

theorem isVariantOf_self {n : String} {m : Model} (hn : s.model? n = some m) :
    s.isVariantOf n n = true := by
  rw [isVariantOf_iff]
  refine ⟨m, hn, ?_⟩
  rw [Model.lineage, hs.name_eq hn]
  exact List.mem_cons_self

/-- a direct variant descends from itself and from what its parent descends from -/
theorem isVariantOf_iff_of_parent {n p b : String} {m : Model} (hn : s.model? n = some m)
    (hp : m.parent = some p) : s.isVariantOf n b = true ↔ b = n ∨ s.isVariantOf p b = true := by
  obtain ⟨q, hq, hanc⟩ := hs.parent_known hn hp
  simp only [isVariantOf_iff, hn, hq, Option.some.injEq, exists_eq_left']
  rw [Model.lineage, hanc, List.mem_cons, hs.name_eq hn]

/-- what a parent is a variant of, its direct variants are -/
theorem isVariantOf_of_parent {n p b : String} {m : Model} (hn : s.model? n = some m)
    (hp : m.parent = some p) (hb : s.isVariantOf p b = true) : s.isVariantOf n b = true :=
  (hs.isVariantOf_iff_of_parent hn hp).mpr (.inr hb)

/-- what models without a parent have, and direct variants take over from theirs, all models have;
the induction is on the line of ancestors, which is that of the parent less one -/
theorem lineage_rec {P : Model → Prop}
    (root : ∀ {n : String} {m : Model}, s.model? n = some m → m.ancestors = [] → P m)
    (step : ∀ {n p : String} {m q : Model}, s.model? n = some m → m.parent = some p →
      s.model? p = some q → m.ancestors = q.lineage → P q → P m)
    {n : String} {m : Model} (hn : s.model? n = some m) : P m := by
  obtain ⟨line, hline⟩ : ∃ line, m.ancestors = line := ⟨_, rfl⟩
  induction line generalizing n m with
  | nil => exact root hn hline
  | cons p line ih =>
    have hp : m.parent = some p := by rw [Model.parent, hline]; rfl
    obtain ⟨q, hq, hanc⟩ := hs.parent_known hn hp
    have hrest : q.ancestors = line := by
      rw [Model.lineage] at hanc
      exact (List.cons.inj (hanc.symm.trans hline)).2
    exact step hn hp hq hanc (ih hq hrest)

/-- what direct variants take over from their parents holds of all variants -/
theorem variant_rec {b : String} {P : String → Prop} (hb : P b)
    (step : ∀ {n p : String} {m : Model}, s.model? n = some m → m.parent = some p → P p → P n)
    {c : String} (hc : s.isVariantOf c b = true) : P c := by
  obtain ⟨m, hm, hmem⟩ := isVariantOf_iff.mp hc
  have hall : b ∈ m.lineage → P m.name := by
    refine hs.lineage_rec (P := fun m => b ∈ m.lineage → P m.name) ?_ ?_ hm
    · intro n m _ hanc hmem
      rw [Model.lineage, hanc, List.mem_singleton] at hmem
      exact hmem ▸ hb
    · intro n p m q hn hp hq hanc ih hmem
      rw [Model.lineage, hanc] at hmem
      rcases List.mem_cons.mp hmem with rfl | hmem
      · exact hb
      · have hparent := ih hmem
        rw [hs.name_eq hq] at hparent
        rw [hs.name_eq hn]
        exact step hn hp hparent
  rw [hs.name_eq hm] at hall
  exact hall hmem

theorem relationship_of_variant {c b k : String} (hc : s.isVariantOf c b = true)
    (hk : (s.relationship? b k).isSome) : (s.relationship? c k).isSome :=
  hs.variant_rec (P := fun n => (s.relationship? n k).isSome) hk
    (fun hm hp => hs.relationship_inherited hm hp) hc

theorem isVariantOf_trans {c b a : String} (hc : s.isVariantOf c b = true)
    (hb : s.isVariantOf b a = true) : s.isVariantOf c a = true :=
  hs.variant_rec (P := fun n => s.isVariantOf n a = true) hb
    (fun hm hp => hs.isVariantOf_of_parent hm hp) hc

end Sound

/-- a model is another one, or a direct variant of a model that descends from it -/
inductive DescendsFrom (s : Schema) (base : String) : String → Prop
  | self : DescendsFrom s base base
  | variant {n p : String} {m : Model} (hm : s.model? n = some m) (hp : m.parent = some p)
      (h : DescendsFrom s base p) : DescendsFrom s base n

theorem Sound.isVariantOf_iff_descendsFrom {s : Schema} (hs : s.Sound) {c b : String} :
    s.isVariantOf c b = true ↔ (∃ m, s.model? c = some m) ∧ s.DescendsFrom b c := by
  constructor
  · intro h
    obtain ⟨m, hm, -⟩ := isVariantOf_iff.mp h
    exact ⟨⟨m, hm⟩, hs.variant_rec .self (fun hn hp hb => .variant hn hp hb) h⟩
  · rintro ⟨⟨m, hm⟩, h⟩
    induction h generalizing m with
    | self => exact hs.isVariantOf_self hm
    | variant hn hp _ ih =>
      obtain ⟨q, hq, -⟩ := hs.parent_known hn hp
      exact hs.isVariantOf_of_parent hn hp (ih q hq)

/-! ## downward -/

theorem mem_directVariants_iff {s : Schema} {c n : String} :
    c ∈ s.directVariants n ↔ ∃ m, s.model? c = some m ∧ m.parent = some n := by
  rw [directVariants, List.mem_map]
  constructor
  · rintro ⟨⟨c', m⟩, he, rfl⟩
    rw [List.mem_filter] at he
    exact ⟨m, Dict.mem_entries_iff.mp he.1, by simpa using he.2⟩
  · rintro ⟨m, hm, hp⟩
    refine ⟨(c, m), List.mem_filter.mpr ⟨Dict.mem_entries_iff.mpr hm, ?_⟩, rfl⟩
    simpa using hp

theorem nodup_directVariants (s : Schema) (n : String) : (s.directVariants n).Nodup :=
  (List.filter_sublist.map _).nodup s.models.nodup_keys

theorem generations_succ (s : Schema) (depth : Nat) (names : List String) :
    s.generations (depth + 1) names =
      names ++ s.generations depth (names.flatMap s.directVariants) := rfl

/-- the number of ancestors of a model -/
def rank (s : Schema) (n : String) : Nat := ((s.model? n).map (·.ancestors.length)).getD 0

/-- different models with the same number of ancestors -/
structure IsLevel (s : Schema) (rank : Nat) (names : List String) : Prop where
  nodup : names.Nodup
  known : ∀ n ∈ names, ∃ m, s.model? n = some m
  rank_eq : ∀ n ∈ names, s.rank n = rank

theorem IsLevel.single {s : Schema} {n : String} {m : Model} (hm : s.model? n = some m) :
    s.IsLevel (s.rank n) [n] := by
  refine ⟨List.nodup_singleton n, fun x hx => ?_, fun x hx => ?_⟩
  · rw [List.mem_singleton.mp hx]
    exact ⟨m, hm⟩
  · rw [List.mem_singleton.mp hx]

namespace Sound
variable {s : Schema} (hs : s.Sound)
include hs

theorem isVariantOf_directVariant {c n : String} (h : c ∈ s.directVariants n) :
    s.isVariantOf c n = true := by
  obtain ⟨m, hm, hp⟩ := mem_directVariants_iff.mp h
  obtain ⟨q, hq, -⟩ := hs.parent_known hm hp
  exact hs.isVariantOf_of_parent hm hp (hs.isVariantOf_self hq)

theorem rank_directVariant {c n : String} (h : c ∈ s.directVariants n) :
    s.rank c = s.rank n + 1 := by
  obtain ⟨m, hm, hp⟩ := mem_directVariants_iff.mp h
  obtain ⟨q, hq, hanc⟩ := hs.parent_known hm hp
  rw [rank, rank, hm, hq, Option.map_some, Option.map_some, hanc]
  rfl

theorem isLevel_next {rank : Nat} {names : List String} (h : s.IsLevel rank names) :
    s.IsLevel (rank + 1) (names.flatMap s.directVariants) where
  nodup := by
    refine List.nodup_flatMap.mpr ⟨fun n _ => s.nodup_directVariants n, ?_⟩
    -- a model has one parent
    refine h.nodup.imp fun {a b} hab c hca hcb => hab ?_
    obtain ⟨m, hm, hpa⟩ := mem_directVariants_iff.mp hca
    obtain ⟨m', hm', hpb⟩ := mem_directVariants_iff.mp hcb
    cases hm.symm.trans hm'
    exact Option.some.inj (hpa.symm.trans hpb)
  known n hn := by
    obtain ⟨p, -, hn⟩ := List.mem_flatMap.mp hn
    obtain ⟨m, hm, -⟩ := mem_directVariants_iff.mp hn
    exact ⟨m, hm⟩
  rank_eq n hn := by
    obtain ⟨p, hp, hn⟩ := List.mem_flatMap.mp hn
    rw [hs.rank_directVariant hn, h.rank_eq p hp]

theorem isVariantOf_generations {rank depth : Nat} {names : List String}
    (h : s.IsLevel rank names) {c : String} (hc : c ∈ s.generations depth names) :
    ∃ n ∈ names, s.isVariantOf c n = true := by
  induction depth generalizing rank names with
  | zero => cases hc
  | succ depth ih =>
    rw [generations_succ, List.mem_append] at hc
    rcases hc with hc | hc
    · obtain ⟨m, hm⟩ := h.known c hc
      exact ⟨c, hc, hs.isVariantOf_self hm⟩
    · obtain ⟨n, hn, hcn⟩ := ih (hs.isLevel_next h) hc
      obtain ⟨p, hp, hn⟩ := List.mem_flatMap.mp hn
      exact ⟨p, hp, hs.isVariantOf_trans hcn (hs.isVariantOf_directVariant hn)⟩

/-- one generation has one rank, and the later ones have greater ranks -/
theorem nodup_generations {rank depth : Nat} {names : List String} (h : s.IsLevel rank names) :
    (s.generations depth names).Nodup ∧ ∀ c ∈ s.generations depth names, rank ≤ s.rank c := by
  induction depth generalizing rank names with
  | zero => exact ⟨List.nodup_nil, fun c hc => by cases hc⟩
  | succ depth ih =>
    obtain ⟨hd, hle⟩ := ih (hs.isLevel_next h)
    rw [generations_succ]
    refine ⟨List.nodup_append.mpr ⟨h.nodup, hd, ?_⟩, ?_⟩
    · rintro a ha b hb rfl
      have h1 := h.rank_eq a ha
      have h2 := hle a hb
      omega
    · intro c hc
      rcases List.mem_append.mp hc with hc | hc
      · exact Nat.le_of_eq (h.rank_eq c hc).symm
      · exact Nat.le_of_succ_le (hle c hc)

theorem isVariantOf_of_mem {n c : String} {names : List String}
    (h : s.variantsOf? n = some names) (hc : c ∈ names) : s.isVariantOf c n = true := by
  rw [variantsOf?] at h
  obtain ⟨m, hm, rfl⟩ := Option.map_eq_some_iff.mp h
  obtain ⟨x, hx, hcx⟩ := hs.isVariantOf_generations (.single hm) hc
  cases List.mem_singleton.mp hx
  exact hcx

theorem nodup_variantsOf? {n : String} {names : List String}
    (h : s.variantsOf? n = some names) : names.Nodup := by
  rw [variantsOf?] at h
  obtain ⟨m, hm, rfl⟩ := Option.map_eq_some_iff.mp h
  exact (hs.nodup_generations (.single hm)).1

/-! ## every variant is listed -/

theorem rank_le_of_variant {c b : String} (h : s.isVariantOf c b = true) :
    s.rank b ≤ s.rank c := by
  refine hs.variant_rec (P := fun n => s.rank b ≤ s.rank n) (Nat.le_refl _) ?_ h
  intro n p m hn hp hle
  have hr := hs.rank_directVariant (mem_directVariants_iff.mpr ⟨m, hn, hp⟩)
  omega

theorem name_mem_keys {n : String} {m : Model} (hn : s.model? n = some m) :
    m.name ∈ s.models.keys := by
  rw [hs.name_eq hn]
  exact List.mem_map_of_mem (Dict.mem_entries_iff.mpr hn)

theorem nodup_lineage {n : String} {m : Model} (hn : s.model? n = some m) :
    m.lineage.Nodup ∧ ∀ x ∈ m.lineage, x ∈ s.models.keys := by
  refine hs.lineage_rec (P := fun m => m.lineage.Nodup ∧ ∀ x ∈ m.lineage, x ∈ s.models.keys)
    ?_ ?_ hn
  · intro n m hn hanc
    rw [Model.lineage, hanc]
    refine ⟨List.nodup_singleton _, fun x hx => ?_⟩
    rw [List.mem_singleton.mp hx]
    exact hs.name_mem_keys hn
  · rintro n p m q hn hp hq hanc ⟨hd, hkeys⟩
    rw [Model.lineage, hanc]
    refine ⟨List.nodup_cons.mpr ⟨fun hmem => ?_, hd⟩,
      List.forall_mem_cons.mpr ⟨hs.name_mem_keys hn, hkeys⟩⟩
    -- the model would be an ancestor of its parent, and so of no greater rank
    rw [hs.name_eq hn] at hmem
    have hle := hs.rank_le_of_variant (isVariantOf_iff.mpr ⟨q, hq, hmem⟩)
    have hr := hs.rank_directVariant (mem_directVariants_iff.mpr ⟨m, hn, hp⟩)
    omega

/-- what a model descends from is a model -/
theorem exists_base {c b : String} (h : s.isVariantOf c b = true) :
    ∃ m, s.model? b = some m := by
  obtain ⟨m, hm, hb⟩ := isVariantOf_iff.mp h
  obtain ⟨⟨_, q⟩, he, rfl⟩ := List.mem_map.mp ((hs.nodup_lineage hm).2 b hb)
  exact ⟨q, Dict.mem_entries_iff.mp he⟩

theorem rank_lt_size {n : String} {m : Model} (hn : s.model? n = some m) :
    s.rank n < s.models.size := by
  obtain ⟨hd, hkeys⟩ := hs.nodup_lineage hn
  have hlen := (hd.subperm hkeys).length_le
  have hsize : s.models.keys.length = s.models.size := List.length_map _
  have hrank : s.rank n = m.ancestors.length := by rw [rank, hn]; rfl
  rw [Model.lineage, List.length_cons] at hlen
  omega

end Sound

theorem subset_generations_succ (s : Schema) (depth : Nat) (names : List String) :
    s.generations depth names ⊆ s.generations (depth + 1) names := by
  induction depth generalizing names with
  | zero => exact List.nil_subset _
  | succ depth ih =>
    rw [generations_succ, generations_succ]
    intro c hc
    rcases List.mem_append.mp hc with hc | hc
    · exact List.mem_append_left _ hc
    · exact List.mem_append_right _ (ih _ hc)

theorem generations_subset (s : Schema) {depth depth' : Nat} (h : depth ≤ depth')
    (names : List String) : s.generations depth names ⊆ s.generations depth' names := by
  induction h with
  | refl => exact List.Subset.refl _
  | step _ ih => exact List.Subset.trans ih (subset_generations_succ s _ names)

/-- a direct variant comes one generation later -/
theorem directVariants_generations {s : Schema} {depth : Nat} {names : List String} {c p : String}
    (hp : p ∈ s.generations depth names) (hc : c ∈ s.directVariants p) :
    c ∈ s.generations (depth + 1) names := by
  induction depth generalizing names with
  | zero => cases hp
  | succ depth ih =>
    rw [generations_succ]
    refine List.mem_append_right _ ?_
    rw [generations_succ] at hp
    rcases List.mem_append.mp hp with hp | hp
    · rw [generations_succ]
      exact List.mem_append_left _ (List.mem_flatMap.mpr ⟨p, hp, hc⟩)
    · exact ih hp

namespace Sound
variable {s : Schema} (hs : s.Sound)
include hs

theorem mem_generations_of_variant {c n : String} (h : s.isVariantOf c n = true) :
    c ∈ s.generations (s.rank c - s.rank n + 1) [n] := by
  have hboth : s.rank n ≤ s.rank c ∧ c ∈ s.generations (s.rank c - s.rank n + 1) [n] := by
    refine hs.variant_rec (P := fun x => s.rank n ≤ s.rank x ∧
      x ∈ s.generations (s.rank x - s.rank n + 1) [n]) ⟨Nat.le_refl _, ?_⟩ ?_ h
    · rw [generations_succ]
      exact List.mem_append_left _ List.mem_cons_self
    · rintro x p m hx hp ⟨hle, hmem⟩
      have hdirect := mem_directVariants_iff.mpr ⟨m, hx, hp⟩
      have hr := hs.rank_directVariant hdirect
      have hdepth : s.rank x - s.rank n + 1 = s.rank p - s.rank n + 1 + 1 := by omega
      rw [hdepth]
      exact ⟨by omega, directVariants_generations hmem hdirect⟩
  exact hboth.2

theorem mem_variantsOf?_iff {n c : String} {names : List String}
    (h : s.variantsOf? n = some names) : c ∈ names ↔ s.isVariantOf c n = true := by
  refine ⟨hs.isVariantOf_of_mem h, fun hc => ?_⟩
  rw [variantsOf?] at h
  obtain ⟨m, hm, rfl⟩ := Option.map_eq_some_iff.mp h
  obtain ⟨mc, hmc, -⟩ := isVariantOf_iff.mp hc
  have hlt := hs.rank_lt_size hmc
  have hdepth : s.rank c - s.rank n + 1 ≤ s.models.size := by omega
  exact generations_subset s hdepth [n] (hs.mem_generations_of_variant hc)

/-! ## trees of variants -/

/-- a variant has the root of its base -/
theorem hierarchyRoot_of_variant {c b : String} {mc mb : Model} (hc : s.model? c = some mc)
    (hb : s.model? b = some mb) (h : s.isVariantOf c b = true) :
    mc.hierarchyRoot = mb.hierarchyRoot := by
  have hall : ∀ x, s.model? c = some x → x.hierarchyRoot = mb.hierarchyRoot := by
    refine hs.variant_rec (P := fun n => ∀ x, s.model? n = some x →
      x.hierarchyRoot = mb.hierarchyRoot) ?_ ?_ h
    · intro x hx
      cases hb.symm.trans hx
      rfl
    · intro n p m hn hp ih x hx
      cases hn.symm.trans hx
      obtain ⟨q, hq, hanc⟩ := hs.parent_known hn hp
      rw [← ih q hq, Model.hierarchyRoot, Model.hierarchyRoot]
      simp only [Model.lineage, hanc]
      exact List.getLast_cons_cons
  exact hall mc hc

end Sound

theorem isVariantOf_hierarchyRoot {s : Schema} {n : String} {m : Model}
    (hn : s.model? n = some m) : s.isVariantOf n m.hierarchyRoot = true :=
  isVariantOf_iff.mpr ⟨m, hn, List.getLast_mem _⟩

/-- two models of one tree: both are variants of one -/
def Akin (s : Schema) (a b : String) : Prop :=
  ∃ base, s.isVariantOf a base = true ∧ s.isVariantOf b base = true

theorem Sound.akin_iff {s : Schema} (hs : s.Sound) {a b : String} {ma mb : Model}
    (ha : s.model? a = some ma) (hb : s.model? b = some mb) :
    s.Akin a b ↔ ma.hierarchyRoot = mb.hierarchyRoot := by
  constructor
  · rintro ⟨base, hab, hbb⟩
    obtain ⟨mbase, hbase⟩ := hs.exists_base hab
    rw [hs.hierarchyRoot_of_variant ha hbase hab, hs.hierarchyRoot_of_variant hb hbase hbb]
  · intro h
    refine ⟨ma.hierarchyRoot, isVariantOf_hierarchyRoot ha, ?_⟩
    rw [h]
    exact isVariantOf_hierarchyRoot hb

end NestedQuery.Schema
