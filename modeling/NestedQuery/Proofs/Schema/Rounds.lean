import NestedQuery.Proofs.Schema.Acceptance

/-!
# Merging in rounds

Variants can be merged parents first: in every round all declarations whose parents are merged, in
any order, until none is left or none can be merged.

* `Declaration.under`                  the model of a declaration below that of its parent;
* `Schema.Rounds`                      rounds from some declarations and merged models to a result;
* `Stage`                              what holds between two rounds;
* `Schema.rounds_iff`                  rounds end, in any order with the schema of the lines;
* `Schema.ofDeclarations_accepts`      which declarations make a schema, whatever their order.
-/

namespace NestedQuery

/-! ## the model below a parent -/

/-- members that a declaration lacks are those of its parent -/
def Declaration.under (d : Declaration) : Option Model → Model
  | none => ⟨d.name, [], d.primaryKey, d.attributes, d.relationships⟩
  | some parent =>
    { name := d.name
      ancestors := parent.lineage
      primaryKey := if d.primaryKey.isEmpty then parent.primaryKey else d.primaryKey
      attributes := d.attributes.overlay parent.attributes
      relationships := d.relationships.overlay parent.relationships }

theorem Declaration.under_none (d : Declaration) : d.under none = .ofLineage d.name [d] := by
  unfold under Model.ofLineage
  simp only [keyOfLineage, attributesOfLineage, relationshipsOfLineage, Dict.overlay_empty,
    List.map_cons, List.map_nil, List.tail_cons]
  cases d.primaryKey <;> rfl

theorem Declaration.under_some {d e : Declaration} {rest : List Declaration} :
    d.under (some (.ofLineage e.name (e :: rest))) = .ofLineage d.name (d :: e :: rest) := rfl

/-! ## rounds -/

namespace Schema

/-- the parent of a declaration is merged, if it has one -/
def Ready (merged : Dict Model) (d : Declaration) : Prop :=
  ∀ p, d.parent = some p → merged.contains p = true

def mergeInto (merged : Dict Model) (d : Declaration) : Dict Model :=
  merged.insert d.name (d.under (d.parent.bind merged.get?))

/-- what comes of the declarations that are left, in whatever order each round takes them -/
inductive Rounds : List Declaration → Dict Model → Except Fault (Dict Model) → Prop
  | none (merged : Dict Model) : Rounds [] merged (.ok merged)
  | stuck {pending : List Declaration} {merged : Dict Model} (hne : pending ≠ [])
      (h : ∀ d ∈ pending, ¬ Ready merged d) : Rounds pending merged (.error .cyclicInheritance)
  | round {pending ready waiting : List Declaration} {merged : Dict Model}
      {r : Except Fault (Dict Model)} (hperm : pending.Perm (ready ++ waiting)) (hne : ready ≠ [])
      (hready : ∀ d ∈ ready, Ready merged d) (hwaiting : ∀ d ∈ waiting, ¬ Ready merged d)
      (h : Rounds waiting (ready.foldl mergeInto merged) r) : Rounds pending merged r

/-- rounds come to an end, since each of them leaves fewer declarations -/
theorem exists_rounds (pending : List Declaration) (merged : Dict Model) :
    ∃ r, Rounds pending merged r := by
  classical
  obtain ⟨k, hk⟩ : ∃ k, pending.length = k := ⟨_, rfl⟩
  induction k using Nat.strongRecOn generalizing pending merged with
  | ind k ih =>
    subst hk
    by_cases hnil : pending = []
    · subst hnil
      exact ⟨_, .none merged⟩
    by_cases hready : ∀ d ∈ pending, ¬ Ready merged d
    · exact ⟨_, .stuck hnil hready⟩
    · simp only [not_forall, not_not] at hready
      obtain ⟨d, hd, hdr⟩ := hready
      have hmem : d ∈ pending.filter (Ready merged ·) :=
        List.mem_filter.mpr ⟨hd, by simpa using hdr⟩
      have hperm : pending.Perm (pending.filter (Ready merged ·) ++
          pending.filter fun d => !decide (Ready merged d)) :=
        (List.filter_append_perm _ _).symm
      have hlength := hperm.length_eq
      rw [List.length_append] at hlength
      have hpos := List.length_pos_of_mem hmem
      obtain ⟨r, hr⟩ := ih _ (by omega) (pending.filter fun d => !decide (Ready merged d))
        ((pending.filter (Ready merged ·)).foldl mergeInto merged) rfl
      exact ⟨r, .round hperm (List.ne_nil_of_mem hmem) (by simp) (by simp) hr⟩

end Schema

/-! ## between two rounds -/

/-- the merged models are those of the lines of their declarations, and all others are left -/
structure Stage (known : Dict Declaration) (pending : List Declaration) (merged : Dict Model) :
    Prop where
  names_differ : (pending.map (·.name)).Nodup
  pending_known : ∀ d ∈ pending, known.get? d.name = some d
  pending_new : ∀ d ∈ pending, merged.get? d.name = none
  merged_line : ∀ n m, merged.get? n = some m → ∃ d rest, known.get? n = some d ∧
    Lineage known d (d :: rest) ∧ m = .ofLineage n (d :: rest)
  covered : ∀ n d, known.get? n = some d → d ∈ pending ∨ ∃ m, merged.get? n = some m

namespace Stage
variable {known : Dict Declaration} {pending : List Declaration} {merged : Dict Model}

theorem perm {others : List Declaration} (h : Stage known pending merged)
    (hperm : pending.Perm others) : Stage known others merged where
  names_differ := (hperm.map _).nodup_iff.mp h.names_differ
  pending_known d hd := h.pending_known d (hperm.mem_iff.mpr hd)
  pending_new d hd := h.pending_new d (hperm.mem_iff.mpr hd)
  merged_line := h.merged_line
  covered n d hd := (h.covered n d hd).imp_left hperm.mem_iff.mp

variable {ds : List Declaration} (hknown : Declares known ds)
include hknown

theorem start (hnames : (ds.map (·.name)).Nodup) : Stage known ds .empty where
  names_differ := hnames
  pending_known d hd := (hknown d.name d).mpr ⟨hd, rfl⟩
  pending_new d _ := Dict.get?_empty d.name
  merged_line n m h := by
    rw [Dict.get?_empty] at h
    cases h
  covered n d hd := .inl ((hknown n d).mp hd).1

/-- the model of a declaration that is ready is that of its line -/
theorem under_eq {d : Declaration} (h : Stage known pending merged)
    (hready : Schema.Ready merged d) :
    ∃ rest, Lineage known d (d :: rest) ∧
      d.under (d.parent.bind merged.get?) = .ofLineage d.name (d :: rest) := by
  cases hp : d.parent with
  | none => exact ⟨[], .root hp, d.under_none⟩
  | some p =>
    obtain ⟨m, hm⟩ := Dict.contains_iff.mp (hready p hp)
    obtain ⟨e, rest, he, hline, rfl⟩ := h.merged_line p m hm
    obtain rfl := ((hknown p e).mp he).2
    refine ⟨e :: rest, .variant hp he hline, ?_⟩
    rw [Option.bind_some, hm]
    exact Declaration.under_some

/-- one declaration of a round -/
theorem mergeInto {d : Declaration} (h : Stage known (d :: pending) merged)
    (hready : Schema.Ready merged d) : Stage known pending (Schema.mergeInto merged d) := by
  obtain ⟨rest, hline, hunder⟩ := h.under_eq hknown hready
  obtain ⟨hfirst, hnodup⟩ := List.nodup_cons.mp h.names_differ
  have hget (n : String) : (Schema.mergeInto merged d).get? n =
      if n = d.name then some (.ofLineage d.name (d :: rest)) else merged.get? n := by
    rw [Schema.mergeInto, Dict.get?_insert, hunder]
  refine ⟨hnodup, fun e he => h.pending_known e (List.mem_cons_of_mem _ he), fun e he => ?_,
    fun n m hm => ?_, fun n e he => ?_⟩
  · have hne : e.name ≠ d.name := fun hn => hfirst (List.mem_map.mpr ⟨e, he, hn⟩)
    rw [hget, if_neg hne]
    exact h.pending_new e (List.mem_cons_of_mem _ he)
  · rw [hget] at hm
    by_cases hn : n = d.name
    · rw [if_pos hn] at hm
      cases hm
      subst hn
      exact ⟨d, rest, h.pending_known d List.mem_cons_self, hline, rfl⟩
    · rw [if_neg hn] at hm
      exact h.merged_line n m hm
  · rw [hget]
    by_cases hn : n = d.name
    · exact .inr ⟨_, if_pos hn⟩
    · rw [if_neg hn]
      refine (h.covered n e he).imp_left fun hmem => (List.mem_cons.mp hmem).resolve_left ?_
      rintro rfl
      exact hn ((hknown n e).mp he).2.symm

omit hknown in
theorem ready_mergeInto {d e : Declaration} (h : Schema.Ready merged e) :
    Schema.Ready (Schema.mergeInto merged d) e := by
  intro p hp
  obtain ⟨m, hm⟩ := Dict.contains_iff.mp (h p hp)
  rw [Dict.contains_iff, Schema.mergeInto, Dict.get?_insert]
  split
  · exact ⟨_, rfl⟩
  · exact ⟨m, hm⟩

/-- one round -/
theorem round {ready waiting : List Declaration} (h : Stage known (ready ++ waiting) merged)
    (hready : ∀ d ∈ ready, Schema.Ready merged d) :
    Stage known waiting (ready.foldl Schema.mergeInto merged) := by
  induction ready generalizing merged with
  | nil => exact h
  | cons d rest ih =>
    obtain ⟨hd, hrest⟩ := List.forall_mem_cons.mp hready
    exact ih (h.mergeInto hknown hd) fun e he => ready_mergeInto (hrest e he)

/-- when no declaration is left, the models are those of the lines -/
theorem merge_eq (h : Stage known [] merged) : Schema.merge known = .ok ⟨merged⟩ := by
  have hline (n : String) (d : Declaration) (hd : known.get? n = some d) : ∃ rest,
      Lineage known d (d :: rest) ∧ merged.get? n = some (.ofLineage n (d :: rest)) := by
    obtain ⟨m, hm⟩ := (h.covered n d hd).resolve_left List.not_mem_nil
    obtain ⟨d', rest, hd', hline, rfl⟩ := h.merged_line n m hm
    cases hd.symm.trans hd'
    exact ⟨rest, hline, hm⟩
  have hacyclic := hknown.acyclic_of_lineages fun n d hd =>
    ⟨_, (hline n d hd).choose_spec.1⟩
  obtain ⟨s, hs⟩ := exists_merge_iff.mpr (hknown.isSome_lineages_iff.mpr hacyclic)
  have hmerged := merged_of_merge hs
  rw [hs]
  refine congrArg (fun models => Except.ok (Schema.mk models)) (Dict.ext_get? fun n => ?_)
  cases hd : known.get? n with
  | some d =>
    obtain ⟨rest, hrest, hm⟩ := hline n d hd
    obtain ⟨line, hl, hs⟩ := hmerged.known hd
    rw [hm, hrest.unique ⟨_, hl⟩]
    exact hs
  | none =>
    have hnone : s.model? n = none := by
      rw [Option.eq_none_iff_forall_ne_some]
      intro m hm
      obtain ⟨d, _, hd', -⟩ := hmerged.model? hm
      rw [hd] at hd'
      cases hd'
    have hnone' : merged.get? n = none := by
      rw [Option.eq_none_iff_forall_ne_some]
      intro m hm
      obtain ⟨d, _, hd', -⟩ := h.merged_line n m hm
      rw [hd] at hd'
      cases hd'
    rw [hnone']
    exact hnone

/-- declarations none of which is ready are variants of each other -/
theorem merge_eq_error (h : Stage known pending merged) (hne : pending ≠ [])
    (hparents : ∀ d ∈ ds, ∀ p, d.parent = some p → ∃ e ∈ ds, e.name = p)
    (hstuck : ∀ d ∈ pending, ¬ Schema.Ready merged d) :
    Schema.merge known = .error .cyclicInheritance := by
  have hnone (depth : Nat) : ∀ d ∈ pending, lineageOf? known depth d = none := by
    induction depth with
    | zero => exact fun _ _ => rfl
    | succ depth ih =>
      intro d hd
      have hmem := ((hknown _ d).mp (h.pending_known d hd)).1
      obtain ⟨p, hp⟩ := not_forall.mp (hstuck d hd)
      obtain ⟨hpar, hnot⟩ := Classical.not_imp.mp hp
      obtain ⟨e, he⟩ := Dict.contains_iff.mp (hknown.contains_iff.mpr (hparents d hmem p hpar))
      have hwaits : e ∈ pending :=
        (h.covered p e he).resolve_right fun hm => hnot (Dict.contains_iff.mpr hm)
      rw [lineageOf?_succ, hpar, Option.bind_some, he]
      show (lineageOf? known depth e).map _ = none
      rw [ih e hwaits]
      rfl
  unfold Schema.merge
  rw [if_neg]
  intro hall
  obtain ⟨d, hd⟩ := List.exists_mem_of_ne_nil pending hne
  have := List.all_eq_true.mp hall (d.name, d) (Dict.mem_entries_iff.mpr (h.pending_known d hd))
  rw [hnone _ d hd] at this
  cases this

end Stage

/-! ## all rounds -/

section
variable {known : Dict Declaration} {ds : List Declaration} (hknown : Declares known ds)
  (hparents : ∀ d ∈ ds, ∀ p, d.parent = some p → ∃ e ∈ ds, e.name = p)
include hknown hparents

theorem Schema.Rounds.eq_merge {pending : List Declaration} {merged : Dict Model}
    {r : Except Fault (Dict Model)} (h : Rounds pending merged r)
    (hstage : Stage known pending merged) : r = (merge known).map (·.models) := by
  induction h with
  | none merged => rw [hstage.merge_eq hknown, map_ok]
  | stuck hne hstuck =>
    rw [hstage.merge_eq_error hknown hne hparents hstuck]
    rfl
  | round hperm _ hready _ _ ih => exact ih ((hstage.perm hperm).round hknown hready)

/-- rounds end with the schema of the lines, or with the fault that there is none -/
theorem Schema.rounds_iff (hnames : (ds.map (·.name)).Nodup) {pending : List Declaration}
    (hperm : pending.Perm ds) (r : Except Fault (Dict Model)) :
    Rounds pending .empty r ↔ r = (merge known).map (·.models) := by
  have hstage : Stage known pending .empty := (Stage.start hknown hnames).perm hperm.symm
  constructor
  · intro h
    exact h.eq_merge hknown hparents hstage
  · rintro rfl
    obtain ⟨r, hr⟩ := exists_rounds pending .empty
    rwa [← hr.eq_merge hknown hparents hstage]

end

/-- declarations in another order are checked and merged alike -/
theorem Schema.ofDeclarations_perm {ds ds' : List Declaration} (hperm : ds.Perm ds')
    (hnames : (ds.map (·.name)).Nodup) : ofDeclarations ds = ofDeclarations ds' := by
  obtain ⟨known, hknown, hdecl⟩ := collect_eq_ok_iff.mpr hnames
  obtain ⟨known', hknown', hdecl'⟩ :=
    collect_eq_ok_iff.mpr ((hperm.map (·.name)).nodup_iff.mp hnames)
  rw [ofDeclarations_of_collect hknown, ofDeclarations_of_collect hknown',
    hdecl.eq_of_perm hdecl' hperm]

/-- a list of declarations makes a schema when it is well-formed; another order of the list makes
the same schema, or none either.  Where all names differ and all references are declared, rounds
that merge parents first come to an end with this schema or without one, in whatever order they
take the declarations. -/
theorem Schema.ofDeclarations_accepts (ds : List Declaration) :
    ((∃ s, ofDeclarations ds = .ok s) ↔ WellFormed ds) ∧
      (∀ ds', ds.Perm ds' →
        (∃ s, ofDeclarations ds = .ok s ∧ ofDeclarations ds' = .ok s) ∨
          ∃ f f', ofDeclarations ds = .error f ∧ ofDeclarations ds' = .error f') ∧
      ((ds.map (·.name)).Nodup →
        (∀ d ∈ ds, ∀ p, d.parent = some p → ∃ e ∈ ds, e.name = p) →
        (∀ d ∈ ds, ∀ k r, d.relationships.get? k = some r → ∃ e ∈ ds, e.name = r.target) →
        ∀ pending r, pending.Perm ds →
          (Rounds pending .empty r ↔ r = (ofDeclarations ds).map (·.models))) := by
  refine ⟨exists_ofDeclarations_iff ds, fun ds' hperm => ?_,
    fun hnames hparents htargets pending r hperm => ?_⟩
  · by_cases hnames : (ds.map (·.name)).Nodup
    · rw [← ofDeclarations_perm hperm hnames]
      cases hds : ofDeclarations ds with
      | ok s => exact .inl ⟨s, rfl, rfl⟩
      | error f => exact .inr ⟨f, f, rfl, rfl⟩
    · have hfails {ds : List Declaration} (h : ¬ (ds.map (·.name)).Nodup) :
          ∃ f, ofDeclarations ds = .error f := by
        cases hds : ofDeclarations ds with
        | ok s => exact absurd ((exists_ofDeclarations_iff ds).mp ⟨s, hds⟩).names_differ h
        | error f => exact ⟨f, rfl⟩
      obtain ⟨f, hf⟩ := hfails hnames
      obtain ⟨f', hf'⟩ := hfails fun h => hnames ((hperm.map (·.name)).nodup_iff.mpr h)
      exact .inr ⟨f, f', hf, hf'⟩
  · obtain ⟨known, hknown, hdecl⟩ := collect_eq_ok_iff.mpr hnames
    rw [ofDeclarations_of_collect hknown, hdecl.checkReferences_iff.mpr ⟨hparents, htargets⟩]
    exact rounds_iff hdecl hparents hnames hperm r

end NestedQuery
