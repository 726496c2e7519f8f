import Mathlib
import NestedQuery.Proofs.Lists
import NestedQuery.Proofs.Schema.Variants

/-!
# Variants level by level

A level holds models with the same number of ancestors, and the direct variants of one level make
up the next.  The variants of a model are the levels below it, one after the other, until a level
is empty.

* `Schema.level`                       the level so many generations below some models;
* `Schema.generations_add`             the first generations, and those of the level after them;
* `Schema.Sound.level_eq_nil`          there are fewer levels than models;
* `Schema.Sound.variantsOf?_filter`    the variants of a variant are those of the base that descend
                                       from it, in the same order;
* `Schema.generations_after_parent`    a model comes after its parent.
-/

namespace NestedQuery

namespace Schema

/-- the models that are so many generations below some models -/
def level (s : Schema) : Nat → List String → List String
  | 0, names => names
  | k + 1, names => s.level k (names.flatMap s.directVariants)

theorem level_succ (s : Schema) (k : Nat) (names : List String) :
    s.level (k + 1) names = s.level k (names.flatMap s.directVariants) := rfl

theorem generations_nil (s : Schema) (depth : Nat) : s.generations depth [] = [] := by
  induction depth with
  | zero => rfl
  | succ depth ih => exact ih

theorem generations_add (s : Schema) (a b : Nat) (names : List String) :
    s.generations (a + b) names = s.generations a names ++ s.generations b (s.level a names) := by
  induction a generalizing names with
  | zero => rw [Nat.zero_add]; rfl
  | succ a ih =>
    rw [Nat.succ_add, generations_succ, ih, generations_succ, List.append_assoc]
    rfl

/-- further generations of an empty level add nothing -/
theorem generations_of_level_eq_nil {s : Schema} {a : Nat} {names : List String}
    (h : s.level a names = []) (b : Nat) :
    s.generations (a + b) names = s.generations a names := by
  rw [generations_add, h, generations_nil, List.append_nil]

namespace Sound
variable {s : Schema} (hs : s.Sound)
include hs

/-- the way down to a variant starts with one of the direct variants -/
theorem exists_directVariant {c b : String} (h : s.isVariantOf c b = true) (hne : c ≠ b) :
    ∃ d ∈ s.directVariants b, s.isVariantOf c d = true := by
  have hboth : c = b ∨ ∃ d ∈ s.directVariants b, s.isVariantOf c d = true := by
    refine hs.variant_rec (P := fun c => c = b ∨ ∃ d ∈ s.directVariants b,
      s.isVariantOf c d = true) (.inl rfl) ?_ h
    rintro n p m hn hp (rfl | ⟨d, hd, hpd⟩)
    · exact .inr ⟨n, mem_directVariants_iff.mpr ⟨m, hn, hp⟩, hs.isVariantOf_self hn⟩
    · exact .inr ⟨d, hd, hs.isVariantOf_of_parent hn hp hpd⟩
  exact hboth.resolve_left hne

/-- a variant that is no further down is the base -/
theorem eq_of_isVariantOf_of_rank {c b : String} (h : s.isVariantOf c b = true)
    (hrank : s.rank c ≤ s.rank b) : c = b := by
  by_contra hne
  obtain ⟨d, hd, hcd⟩ := hs.exists_directVariant h hne
  have hlt := hs.rank_directVariant hd
  have hle := hs.rank_le_of_variant hcd
  omega

/-! ## levels -/

theorem isLevel_level {rank : Nat} {names : List String} (h : s.IsLevel rank names) (k : Nat) :
    s.IsLevel (rank + k) (s.level k names) := by
  induction k generalizing rank names with
  | zero => exact h
  | succ k ih =>
    rw [level_succ, ← Nat.add_assoc, Nat.add_right_comm]
    exact ih (hs.isLevel_next h)

/-- no model has as many ancestors as there are models -/
theorem level_eq_nil {rank k : Nat} {names : List String} (h : s.IsLevel rank names)
    (hk : s.models.size ≤ rank + k) : s.level k names = [] := by
  have hlevel := hs.isLevel_level h k
  refine List.eq_nil_iff_forall_not_mem.mpr fun c hc => ?_
  obtain ⟨m, hm⟩ := hlevel.known c hc
  have hlt := hs.rank_lt_size hm
  have hrank := hlevel.rank_eq c hc
  omega

/-! ## the order below a variant -/

/-- below the level of a model, what descends from it are the variants of what does so there -/
theorem filter_generations_of_le {c : String} {rank depth : Nat} {names : List String}
    (h : s.IsLevel rank names) (hc : s.rank c ≤ rank) :
    (s.generations depth names).filter (s.isVariantOf · c) =
      s.generations depth (names.filter (s.isVariantOf · c)) := by
  induction depth generalizing rank names with
  | zero => rfl
  | succ depth ih =>
    have hagree : ∀ n ∈ names, ∀ d ∈ s.directVariants n, s.isVariantOf d c = s.isVariantOf n c := by
      intro n hn d hd
      obtain ⟨m, hm, hp⟩ := mem_directVariants_iff.mp hd
      rw [Bool.eq_iff_iff, hs.isVariantOf_iff_of_parent hm hp, or_iff_right]
      rintro rfl
      have hrank := hs.rank_directVariant hd
      have hle := h.rank_eq n hn
      omega
    rw [generations_succ, List.filter_append, ih (hs.isLevel_next h) (Nat.le_succ_of_le hc),
      filter_flatMap_of_agree hagree, generations_succ]

/-- of a level all that descends from a model of it is the model itself -/
theorem filter_level {c : String} {names : List String} (h : s.IsLevel (s.rank c) names)
    (hc : c ∈ names) : names.filter (s.isVariantOf · c) = [c] := by
  have hself : ∀ n ∈ names, s.isVariantOf n c = (n == c) := by
    intro n hn
    rw [Bool.eq_iff_iff, beq_iff_eq]
    refine ⟨fun hv => hs.eq_of_isVariantOf_of_rank hv (Nat.le_of_eq (h.rank_eq n hn)), ?_⟩
    rintro rfl
    obtain ⟨m, hm⟩ := h.known n hn
    exact hs.isVariantOf_self hm
  rw [List.filter_congr hself, List.filter_beq, List.count_eq_one_of_mem h.nodup hc]
  rfl

/-- from the level of a base down, what descends from a variant of it are the generations of the
variant; the induction is on how far the variant is below the base -/
theorem filter_generations {c : String} {rank k : Nat} {names : List String}
    (h : s.IsLevel rank names) (hk : s.rank c = rank + k)
    (hc : ∃ b ∈ names, s.isVariantOf c b = true) (depth : Nat) :
    (s.generations (k + depth) names).filter (s.isVariantOf · c) = s.generations depth [c] := by
  induction k generalizing rank names with
  | zero =>
    rw [Nat.add_zero] at hk
    obtain ⟨b, hb, hcb⟩ := hc
    have he := hs.eq_of_isVariantOf_of_rank hcb (Nat.le_of_eq (hk.trans (h.rank_eq b hb).symm))
    subst he
    rw [Nat.zero_add, hs.filter_generations_of_le h (Nat.le_of_eq hk),
      hs.filter_level (hk ▸ h) hb]
  | succ k ih =>
    have habove : names.filter (s.isVariantOf · c) = [] := by
      refine List.filter_eq_nil_iff.mpr fun n hn hv => ?_
      have hle := hs.rank_le_of_variant hv
      have hrank := h.rank_eq n hn
      omega
    have hbelow : ∃ d ∈ names.flatMap s.directVariants, s.isVariantOf c d = true := by
      obtain ⟨b, hb, hcb⟩ := hc
      obtain ⟨d, hd, hcd⟩ := hs.exists_directVariant hcb fun he => by
        have hrank := h.rank_eq b hb
        rw [← he] at hrank
        omega
      exact ⟨d, List.mem_flatMap.mpr ⟨b, hb, hd⟩, hcd⟩
    rw [Nat.succ_add, generations_succ, List.filter_append, habove, List.nil_append]
    exact ih (hs.isLevel_next h) (by omega) hbelow

/-- the variants of a variant are those of the base that descend from it, in the same order -/
theorem variantsOf?_filter {c t : String} {names : List String}
    (ht : s.variantsOf? t = some names) (hc : s.isVariantOf c t = true) :
    s.variantsOf? c = some (names.filter (s.isVariantOf · c)) := by
  obtain ⟨mt, hmt, rfl⟩ := Option.map_eq_some_iff.mp ht
  obtain ⟨mc, hmc, -⟩ := isVariantOf_iff.mp hc
  have hle := hs.rank_le_of_variant hc
  have hlt := hs.rank_lt_size hmc
  obtain ⟨k, hk⟩ := Nat.exists_eq_add_of_le hle
  obtain ⟨depth, hdepth⟩ := Nat.exists_eq_add_of_le (show k ≤ s.models.size by omega)
  have hbelow := hs.filter_generations (.single hmt) hk ⟨t, List.mem_cons_self, hc⟩ depth
  -- the variant needs no more generations than are left below it
  have hend : s.level depth [c] = [] := hs.level_eq_nil (.single hmc) (by omega)
  rw [variantsOf?, hmc, Option.map_some, Option.some.injEq, hdepth, hbelow, Nat.add_comm]
  exact generations_of_level_eq_nil hend k

end Sound

/-! ## parents first -/

/-- a model behind the first generation comes after its parent -/
theorem generations_after_parent {s : Schema} {depth : Nat} {names : List String} {c : String}
    (hc : c ∈ s.generations depth names) :
    c ∈ names ∨ ∃ p nearer later, s.generations depth names = nearer ++ c :: later ∧
      p ∈ nearer ∧ c ∈ s.directVariants p := by
  induction depth generalizing names with
  | zero => cases hc
  | succ depth ih =>
    rw [generations_succ, List.mem_append] at hc
    refine hc.imp_right fun hc => ?_
    rw [generations_succ]
    rcases ih hc with hnext | ⟨p, nearer, later, hsplit, hp, hd⟩
    · obtain ⟨p, hp, hd⟩ := List.mem_flatMap.mp hnext
      obtain ⟨nearer, later, hsplit⟩ := List.append_of_mem hc
      exact ⟨p, names ++ nearer, later, by rw [hsplit, List.append_assoc],
        List.mem_append_left _ hp, hd⟩
    · exact ⟨p, names ++ nearer, later, by rw [hsplit, List.append_assoc],
        List.mem_append_right _ hp, hd⟩

end Schema

/-! ## vessels on shelves -/

namespace Vessels

/-- two kinds of vessels, each with a kind of its own below it -/
def declarations : List Declaration :=
  [((Declaration.named "Shelf").addKeyColumn "id").addRelationship "vessels" "Vessel" .many "id"
      "shelf",
    (((Declaration.named "Vessel").addKeyColumn "id").addAttribute "shelf" .integer).addAttribute
      "volume" .integer,
    (Declaration.named "Tube").withParent "Vessel",
    (Declaration.named "Box").withParent "Vessel",
    (Declaration.named "CryoTube").withParent "Tube",
    (Declaration.named "Rack").withParent "Box"]

def schema : Schema := (Schema.ofDeclarations declarations).toOption.getD .empty

theorem ofDeclarations_eq : Schema.ofDeclarations declarations = .ok schema := by cbv

theorem built : schema.Built := by
  refine ⟨declarations, fun d hd => ?_, ofDeclarations_eq⟩
  simp only [declarations, List.mem_cons, List.not_mem_nil, or_false] at hd
  rcases hd with rfl | rfl | rfl | rfl | rfl | rfl
  · exact .addRelationship _ _ _ _ _ (.addKeyColumn _ (.named _))
  · exact .addAttribute _ _ (.addAttribute _ _ (.addKeyColumn _ (.named _)))
  · exact .withParent _ (.named _)
  · exact .withParent _ (.named _)
  · exact .withParent _ (.named _)
  · exact .withParent _ (.named _)

/-- boxes and tubes come before racks, although racks are boxes -/
example : schema.variantsOf "Vessel" = .ok ["Vessel", "Box", "Tube", "Rack", "CryoTube"] := by cbv

end Vessels

end NestedQuery
