import NestedQuery.Proofs.Schema.Levels

/-!
# Walks along the links between models

A schema can be walked without a bound: downward with a list of models that grows while it is gone
through, and upward from parent to parent.  Such walks need not end where models descend from each
other in a circle.  In a built schema they do, and the two directions agree.

* `Schema.downward`, `Schema.variantsWalk`   a list of models, each followed later by its variants;
* `Schema.upward`                            from parent to parent in search of a base;
* `Schema.climb`                             from parent to parent as far as it goes;
* `Schema.Sound.upward_eq`, `Schema.Sound.climb_eq`   what the upward walks end with;
* `Schema.Sound.downward_eq`                 the list grows by the levels below a model;
* `Schema.Built.walks_agree`                 all walks end, and list or find the same variants.

A walk is `none` where it does not end.
-/

namespace NestedQuery

namespace Schema

/-- a list that grows while it is gone through: the direct variants of the name at `next` come to
its end -/
def downward (s : Schema) (found : List String) (next : Nat) :
    Option (Except Error (List String)) :=
  match found[next]? with
  | none => some (.ok found)
  | some n =>
    match s.modelNamed n with
    | .error e => some (.error e)
    | .ok m => s |>.downward (found ++ s.directVariants m.name) (next + 1)
partial_fixpoint

/-- the downward walk from a model -/
def variantsWalk (s : Schema) (base : String) : Option (Except Error (List String)) :=
  match s.modelNamed base with
  | .error e => some (.error e)
  | .ok m => s.downward [m.name] 0

/-- whether a model or one that is reached from parent to parent is the base -/
def upward (s : Schema) (base : String) : Option Model → Option Bool
  | none => some false
  | some m => if m.name = base then some true else s |>.upward base (m.parent.bind s.model?)
partial_fixpoint

/-- the last model that is reached from parent to parent -/
def climb (s : Schema) (n : String) : Option String :=
  match (s.model? n).bind (·.parent) with
  | none => some n
  | some p => s |>.climb p
partial_fixpoint

/-! ## upward -/

theorem upward_none (s : Schema) (base : String) : s.upward base none = some false := by
  rw [upward]

/-- a model is compared with the base before its ancestors are -/
theorem upward_some {s : Schema} {base : String} {m : Model}
    (h : s.upward base (m.parent.bind s.model?) = some (m.ancestors.contains base)) :
    s.upward base (some m) = some (m.lineage.contains base) := by
  rw [upward, Model.lineage, List.contains_cons]
  by_cases hname : m.name = base
  · rw [if_pos hname, hname, beq_self_eq_true, Bool.true_or]
  · rw [if_neg hname, h, beq_eq_false_iff_ne.mpr (Ne.symm hname), Bool.false_or]

namespace Sound
variable {s : Schema} (hs : s.Sound)
include hs

/-- the search goes through the line of ancestors, and ends with it -/
theorem upward_eq (c base : String) :
    s.upward base (s.model? c) = some (s.isVariantOf c base) := by
  cases hc : s.model? c with
  | none => rw [upward_none, isVariantOf, hc]
  | some m =>
    have hline : s.upward base (some m) = some (m.lineage.contains base) := by
      refine hs.lineage_rec (P := fun m => s.upward base (some m) =
        some (m.lineage.contains base)) ?_ ?_ hc
      · intro n m _ hanc
        refine upward_some ?_
        rw [Model.parent, hanc, List.head?_nil, Option.bind_none, upward_none]
        rfl
      · intro n p m q _ hp hq hanc ih
        refine upward_some ?_
        rw [hp, Option.bind_some, hq, ih, hanc]
    rw [hline, isVariantOf, hc]

/-- the climb ends with the root of the tree of variants; a name that is no model stays -/
theorem climb_eq (c : String) :
    s.climb c = some (((s.model? c).map (·.hierarchyRoot)).getD c) := by
  cases hc : s.model? c with
  | none =>
    rw [climb, hc]
    rfl
  | some m =>
    have hline : s.climb m.name = some m.hierarchyRoot := by
      refine hs.lineage_rec (P := fun m => s.climb m.name = some m.hierarchyRoot) ?_ ?_ hc
      · intro n m hn hanc
        rw [hs.name_eq hn, climb, hn]
        simp only [Option.bind_some, Model.parent, hanc, List.head?_nil, Model.hierarchyRoot,
          Model.lineage, List.getLast_singleton, hs.name_eq hn]
      · intro n p m q hn hp hq hanc ih
        rw [hs.name_eq hq] at ih
        rw [hs.name_eq hn, climb, hn, Option.bind_some, hp]
        show s.climb p = _
        rw [ih, Model.hierarchyRoot, Model.hierarchyRoot]
        simp only [Model.lineage, hanc]
        rw [List.getLast_cons_cons]
    rw [hs.name_eq hc] at hline
    exact hline

end Sound

/-! ## downward -/

theorem downward_end (s : Schema) (found : List String) :
    s.downward found found.length = some (.ok found) := by
  rw [downward, List.getElem?_eq_none (Nat.le_refl _)]

namespace Sound
variable {s : Schema} (hs : s.Sound)
include hs

/-- one step of the walk -/
theorem downward_step {done rest : List String} {n : String} {m : Model}
    (hn : s.model? n = some m) :
    s.downward (done ++ n :: rest) done.length =
      s.downward (done ++ n :: (rest ++ s.directVariants n)) (done ++ [n]).length := by
  have hnext : (done ++ n :: rest)[done.length]? = some n := by
    rw [List.getElem?_append_right (Nat.le_refl _), Nat.sub_self, List.getElem?_cons_zero]
  rw [downward, hnext]
  simp only [modelNamed_of_some hn, hs.name_eq hn]
  rw [List.append_assoc, List.cons_append, List.length_append, List.length_singleton]

/-- the walk goes through a level and puts the next one behind what waits already -/
theorem downward_through (done : List String) {names : List String} (waiting : List String)
    (hknown : ∀ n ∈ names, ∃ m, s.model? n = some m) :
    s.downward (done ++ (names ++ waiting)) done.length =
      s.downward (done ++ names ++ (waiting ++ names.flatMap s.directVariants))
        (done ++ names).length := by
  induction names generalizing done waiting with
  | nil => simp only [List.append_nil, List.nil_append, List.flatMap_nil]
  | cons n rest ih =>
    obtain ⟨⟨m, hm⟩, hrest⟩ := List.forall_mem_cons.mp hknown
    rw [List.cons_append, hs.downward_step hm, List.append_cons, List.append_assoc rest waiting,
      ih _ _ hrest, ← List.append_cons, List.flatMap_cons, List.append_assoc waiting]

/-- from a level on, the walk adds the generations below it, until a level is empty -/
theorem downward_eq {rank depth : Nat} (done : List String) {names : List String}
    (h : s.IsLevel rank names) (hend : s.level depth names = []) :
    s.downward (done ++ names) done.length =
      some (.ok (done ++ s.generations depth names)) := by
  induction depth generalizing rank done names with
  | zero =>
    have hnil : names = [] := hend
    subst hnil
    rw [List.append_nil, downward_end, generations_nil, List.append_nil]
  | succ depth ih =>
    have hlevel := hs.downward_through done [] h.known
    rw [List.append_nil, List.nil_append] at hlevel
    rw [hlevel, ih (done ++ names) (hs.isLevel_next h) hend, generations_succ, List.append_assoc]

theorem variantsWalk_eq {base : String} {m : Model} (hm : s.model? base = some m) :
    s.variantsWalk base = some (.ok (s.generations s.models.size [base])) := by
  have hend : s.level s.models.size [base] = [] := hs.level_eq_nil (.single hm) (by omega)
  rw [variantsWalk, modelNamed_of_some hm]
  show s.downward [m.name] 0 = _
  rw [hs.name_eq hm]
  exact hs.downward_eq [] (.single hm) hend

end Sound

/-! ## both directions -/

/-- in a built schema every walk ends.  The downward one from a base starts with the base, lists
no model twice and each one after its parent; these are the models from which the upward one finds
the base.  The climb to the root of a tree of variants ends as well. -/
theorem Built.walks_agree {s : Schema} (h : s.Built) {base : String} {m : Model}
    (hm : s.model? base = some m) :
    (∃ names, s.variantsWalk base = some (.ok names) ∧ s.variantsOf base = .ok names ∧
      names.head? = some base ∧ names.Nodup ∧
      (∀ nearer c later, names = nearer ++ c :: later → c ≠ base →
        ∃ mc p, s.model? c = some mc ∧ mc.parent = some p ∧ p ∈ nearer) ∧
      ∀ c, c ∈ names ↔ s.isVariantOf c base = true) ∧
    (∀ c, s.upward base (s.model? c) = some (s.isVariantOf c base)) ∧
    ∀ c, s.climb c = some (((s.model? c).map (·.hierarchyRoot)).getD c) := by
  have hs := h.sound
  refine ⟨?_, fun c => hs.upward_eq c base, hs.climb_eq⟩
  have hnames : s.variantsOf? base = some (s.generations s.models.size [base]) := by
    rw [variantsOf?, hm, Option.map_some]
  have hnodup := hs.nodup_variantsOf? hnames
  refine ⟨_, hs.variantsWalk_eq hm, by rw [variantsOf, hnames], ?_, hnodup, ?_,
    fun c => hs.mem_variantsOf?_iff hnames⟩
  · -- there is a model, so that there is a first generation
    have hpos := hs.rank_lt_size hm
    obtain ⟨depth, hdepth⟩ := Nat.exists_eq_succ_of_ne_zero (Nat.ne_zero_of_lt hpos)
    rw [hdepth, generations_succ]
    rfl
  · intro nearer c later hsplit hne
    have hc : c ∈ s.generations s.models.size [base] := by
      rw [hsplit]
      exact List.mem_append_right _ List.mem_cons_self
    rcases generations_after_parent hc with hfirst | ⟨p, nearer', later', hsplit', hp, hd⟩
    · exact absurd (List.mem_singleton.mp hfirst) hne
    · obtain ⟨mc, hmc, hparent⟩ := mem_directVariants_iff.mp hd
      refine ⟨mc, p, hmc, hparent, ?_⟩
      -- the model is listed once, so that both splits are one
      rw [hsplit] at hnodup hsplit'
      obtain ⟨hc, -⟩ := List.nodup_cons.mp (List.nodup_middle.mp hnodup)
      rw [List.mem_append, not_or] at hc
      have hsame := ((List.append_cons_inj_of_notMem hc.1 hc.2).mp hsplit').1
      rwa [hsame]

end Schema

namespace Vessels

def vessel : Model := (schema.model? "Vessel").getD ⟨"", [], [], .empty, .empty⟩

theorem model?_vessel : schema.model? "Vessel" = some vessel := by cbv

theorem walks_agree_vessels :
    schema.Built ∧ schema.model? "Vessel" = some vessel ∧
      (∃ names, schema.variantsWalk "Vessel" = some (.ok names) ∧
        schema.variantsOf "Vessel" = .ok names ∧ names.head? = some "Vessel" ∧ names.Nodup ∧
        (∀ nearer c later, names = nearer ++ c :: later → c ≠ "Vessel" →
          ∃ mc p, schema.model? c = some mc ∧ mc.parent = some p ∧ p ∈ nearer) ∧
        ∀ c, c ∈ names ↔ schema.isVariantOf c "Vessel" = true) ∧
      (∀ c, schema.upward "Vessel" (schema.model? c) = some (schema.isVariantOf c "Vessel")) ∧
      ∀ c, schema.climb c = some (((schema.model? c).map (·.hierarchyRoot)).getD c) :=
  ⟨built, model?_vessel, Schema.Built.walks_agree built model?_vessel⟩

end Vessels

end NestedQuery
