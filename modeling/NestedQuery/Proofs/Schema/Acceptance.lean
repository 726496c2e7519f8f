import Mathlib.Data.List.Chain
import Mathlib.Data.List.Perm.Subperm
import Mathlib.Logic.Relation
import NestedQuery.Proofs.Outcome
import NestedQuery.Proofs.Schema.Sound

/-!
# Which declarations make a schema

* `Schema.WellFormed`           different names, declared parents and targets, no circles;
* `collect_eq_ok_iff`           the first check passes when the names differ;
* `checkReferences_eq_ok_iff`   the second one when parents and targets are declared;
* `isSome_lineages_iff`         every line of ancestors ends when there are no circles;
* `exists_ofDeclarations_iff`   well-formed lists of declarations make a schema, and no others.
-/

namespace NestedQuery

/-- a model of the first name is declared as a variant of the second one -/
def Schema.ParentIn (ds : List Declaration) (n p : String) : Prop :=
  ∃ d ∈ ds, d.name = n ∧ d.parent = some p

structure Schema.WellFormed (ds : List Declaration) : Prop where
  names_differ : (ds.map (·.name)).Nodup
  parents_declared : ∀ d ∈ ds, ∀ p, d.parent = some p → ∃ e ∈ ds, e.name = p
  targets_declared : ∀ d ∈ ds, ∀ k r, d.relationships.get? k = some r →
    ∃ e ∈ ds, e.name = r.target
  /-- following the parents of a model never leads back to it -/
  acyclic : ∀ n, ¬ Relation.TransGen (Schema.ParentIn ds) n n

/-! ## declarations by name -/

/-- the declarations of a list by their names -/
def Declares (known : Dict Declaration) (ds : List Declaration) : Prop :=
  ∀ n d, known.get? n = some d ↔ d ∈ ds ∧ d.name = n

theorem Declares.contains_iff {known : Dict Declaration} {ds : List Declaration}
    (h : Declares known ds) {n : String} :
    known.contains n = true ↔ ∃ e ∈ ds, e.name = n := by
  rw [Dict.contains_iff]
  simp only [h n]

/-- one list of declarations in two orders has the same names -/
theorem Declares.eq_of_perm {known known' : Dict Declaration} {ds ds' : List Declaration}
    (h : Declares known ds) (h' : Declares known' ds') (hperm : ds.Perm ds') : known = known' := by
  refine Dict.ext_get? fun n => Option.ext fun d => ?_
  rw [h, h', hperm.mem_iff]

theorem collect_cons_of_new {known : Dict Declaration} {d : Declaration} {rest : List Declaration}
    (h : known.get? d.name = none) :
    collect known (d :: rest) = collect (known.insert d.name d) rest := by
  simp [collect, Dict.contains, h]

/-- collecting goes through exactly when no name comes twice -/
theorem exists_collect_iff {known : Dict Declaration} {ds : List Declaration} :
    (∃ known', collect known ds = .ok known') ↔
      (ds.map (·.name)).Nodup ∧ ∀ d ∈ ds, known.get? d.name = none := by
  induction ds generalizing known with
  | nil => simp [collect]
  | cons d rest ih =>
    cases hd : known.get? d.name with
    | some e => simp [collect, Dict.contains, hd]
    | none =>
      rw [collect_cons_of_new hd, ih, List.map_cons, List.nodup_cons, List.forall_mem_cons]
      simp only [Dict.get?_insert, List.mem_map, not_exists, not_and]
      constructor
      · rintro ⟨hnodup, hnew⟩
        refine ⟨⟨fun e he hname => ?_, hnodup⟩, hd, fun e he => ?_⟩
        · have := hnew e he
          simp [hname] at this
        · have := hnew e he
          by_cases hname : e.name = d.name
          · simp [hname] at this
          · rwa [if_neg hname] at this
      · rintro ⟨⟨hfirst, hnodup⟩, -, hnew⟩
        refine ⟨hnodup, fun e he => ?_⟩
        rw [if_neg (hfirst e he)]
        exact hnew e he

theorem get?_of_collect {known known' : Dict Declaration} {ds : List Declaration}
    (h : collect known ds = .ok known') {n : String} {d : Declaration}
    (hd : known.get? n = some d ∨ d ∈ ds ∧ d.name = n) : known'.get? n = some d := by
  induction ds generalizing known with
  | nil =>
    cases h
    simpa using hd
  | cons e rest ih =>
    have hnew : known.get? e.name = none :=
      (exists_collect_iff.mp ⟨known', h⟩).2 e List.mem_cons_self
    have hrest := (exists_collect_iff.mp ⟨known', h⟩).1
    rw [collect_cons_of_new hnew] at h
    refine ih h ?_
    rw [Dict.get?_insert]
    rcases hd with hd | ⟨hmem, rfl⟩
    · refine .inl ?_
      rw [if_neg, hd]
      rintro rfl
      rw [hnew] at hd
      cases hd
    · rcases List.mem_cons.mp hmem with rfl | hmem
      · exact .inl (if_pos rfl)
      · exact .inr ⟨hmem, rfl⟩

theorem collect_eq_ok_iff {ds : List Declaration} :
    (∃ known, collect .empty ds = .ok known ∧ Declares known ds) ↔ (ds.map (·.name)).Nodup := by
  constructor
  · rintro ⟨known, h, -⟩
    exact (exists_collect_iff.mp ⟨known, h⟩).1
  · intro hnodup
    obtain ⟨known, h⟩ := exists_collect_iff.mpr ⟨hnodup, fun d _ => Dict.get?_empty d.name⟩
    refine ⟨known, h, fun n d => ⟨fun hd => ?_, fun hd => get?_of_collect h (.inr hd)⟩⟩
    exact (collect_get? h hd).resolve_left fun he => by cases he

/-! ## references -/

theorem checkTargets_of_known {known : Dict Declaration} {model : String}
    {entries : List (String × Relationship)}
    (h : ∀ e ∈ entries, known.contains e.2.target = true) :
    checkTargets known model entries = .ok () := by
  induction entries with
  | nil => rfl
  | cons e rest ih =>
    rw [checkTargets, if_pos (h e List.mem_cons_self)]
    exact ih fun e he => h e (List.mem_cons_of_mem _ he)

theorem checkReferences_eq_ok_iff {known : Dict Declaration}
    {entries : List (String × Declaration)} :
    checkReferences known entries = .ok () ↔
      ∀ e ∈ entries, (∀ p, e.2.parent = some p → known.contains p = true) ∧
        ∀ k r, e.2.relationships.get? k = some r → known.contains r.target = true := by
  refine ⟨checkReferences_ok, fun h => ?_⟩
  induction entries with
  | nil => rfl
  | cons e rest ih =>
    obtain ⟨hparent, htargets⟩ := h e List.mem_cons_self
    have hp : (e.2.parent.filter fun p => !known.contains p) = none := by
      cases hp : e.2.parent with
      | none => rfl
      | some p => simp [hparent p hp]
    have ht : checkTargets known e.2.name e.2.relationships.entries = .ok () :=
      checkTargets_of_known fun x hx => htargets x.1 x.2 (Dict.mem_entries_iff.mp hx)
    rw [checkReferences, hp]
    simp only [ht]
    exact ih fun e he => h e (List.mem_cons_of_mem _ he)

theorem Declares.checkReferences_iff {known : Dict Declaration} {ds : List Declaration}
    (h : Declares known ds) : checkReferences known known.entries = .ok () ↔
      (∀ d ∈ ds, ∀ p, d.parent = some p → ∃ e ∈ ds, e.name = p) ∧
        ∀ d ∈ ds, ∀ k r, d.relationships.get? k = some r → ∃ e ∈ ds, e.name = r.target := by
  rw [checkReferences_eq_ok_iff]
  simp only [h.contains_iff]
  constructor
  · intro hall
    have hd : ∀ d ∈ ds, (d.name, d) ∈ known.entries := fun d hd =>
      Dict.mem_entries_iff.mpr ((h d.name d).mpr ⟨hd, rfl⟩)
    exact ⟨fun d hmem => (hall _ (hd d hmem)).1, fun d hmem => (hall _ (hd d hmem)).2⟩
  · rintro ⟨hparents, htargets⟩ ⟨n, d⟩ he
    have hmem := ((h n d).mp (Dict.mem_entries_iff.mp he)).1
    exact ⟨hparents d hmem, htargets d hmem⟩

/-! ## lines of ancestors -/

/-- the line of a declaration, which ends within some depth -/
def Lineage (known : Dict Declaration) (d : Declaration) (line : List Declaration) : Prop :=
  ∃ depth, lineageOf? known depth d = some line

namespace Lineage
variable {known : Dict Declaration} {d e : Declaration} {line rest : List Declaration}

theorem mono {depth more : Nat} (h : lineageOf? known depth d = some line) :
    lineageOf? known (depth + more) d = some line := by
  induction more with
  | zero => exact h
  | succ more ih => exact lineageOf?_mono ih

theorem unique (h : Lineage known d line) (h' : Lineage known d rest) : line = rest := by
  obtain ⟨a, ha⟩ := h
  obtain ⟨b, hb⟩ := h'
  have hab : lineageOf? known (a + b) d = some line := mono ha
  rw [Nat.add_comm, mono hb] at hab
  exact (Option.some.inj hab).symm

theorem root (h : d.parent = none) : Lineage known d [d] := by
  refine ⟨1, ?_⟩
  rw [lineageOf?_succ, h]
  rfl

theorem variant {p : String} (hd : d.parent = some p) (hp : known.get? p = some e)
    (h : Lineage known e rest) : Lineage known d (d :: rest) := by
  obtain ⟨depth, hdepth⟩ := h
  refine ⟨depth + 1, ?_⟩
  rw [lineageOf?_succ, hd, Option.bind_some, hp]
  show (lineageOf? known depth e).map _ = _
  rw [hdepth]
  rfl

end Lineage

section
variable {known : Dict Declaration} {ds : List Declaration} (h : Declares known ds)
include h

theorem Declares.parentIn_iff {n p : String} :
    Schema.ParentIn ds n p ↔ ∃ d, known.get? n = some d ∧ d.parent = some p := by
  unfold Schema.ParentIn
  constructor
  · rintro ⟨d, hd, hn, hp⟩
    exact ⟨d, (h n d).mpr ⟨hd, hn⟩, hp⟩
  · rintro ⟨d, hd, hp⟩
    exact ⟨d, ((h n d).mp hd).1, ((h n d).mp hd).2, hp⟩

/-- a line that does not end within a depth has more members than that, each the parent of the
one before it -/
theorem Declares.exists_chain {depth : Nat} {n : String} {d : Declaration}
    (hd : known.get? n = some d) (hline : lineageOf? known depth d = none) :
    ∃ names, (n :: names).IsChain (Schema.ParentIn ds) ∧ names.length = depth ∧
      ∀ x ∈ n :: names, x ∈ known.keys := by
  have hkeys {n : String} {d : Declaration} (hd : known.get? n = some d) : n ∈ known.keys :=
    List.mem_map_of_mem (f := fun e : String × Declaration => e.1) (Dict.mem_entries_iff.mpr hd)
  induction depth generalizing n d with
  | zero => exact ⟨[], .singleton n, rfl, fun x hx => List.mem_singleton.mp hx ▸ hkeys hd⟩
  | succ depth ih =>
    rw [lineageOf?_succ] at hline
    cases hp : d.parent.bind known.get? with
    | none =>
      rw [hp] at hline
      cases hline
    | some parent =>
      rw [hp, Option.map_eq_none_iff] at hline
      obtain ⟨p, hpar, hget⟩ := Option.bind_eq_some_iff.mp hp
      obtain ⟨names, hchain, hlength, hmem⟩ := ih hget hline
      refine ⟨p :: names, .cons_cons ((h.parentIn_iff).mpr ⟨d, hd, hpar⟩) hchain, ?_, ?_⟩
      · rw [List.length_cons, hlength]
      · exact List.forall_mem_cons.mpr ⟨hkeys hd, hmem⟩

/-- a parent has a shorter line than its variants -/
theorem Declares.length_lineage_lt
    (hall : ∀ n d, known.get? n = some d → ∃ line, Lineage known d line) {n p : String}
    (hnp : Relation.TransGen (Schema.ParentIn ds) n p) {d e : Declaration}
    (hd : known.get? n = some d) (he : known.get? p = some e) {line rest : List Declaration}
    (hline : Lineage known d line) (hrest : Lineage known e rest) :
    rest.length < line.length := by
  have hparent {m p : String} {d e : Declaration} {line rest : List Declaration}
      (hp : Schema.ParentIn ds m p) (hd : known.get? m = some d) (he : known.get? p = some e)
      (hline : Lineage known d line) (hrest : Lineage known e rest) :
      rest.length < line.length := by
    obtain ⟨d', hd', hpar⟩ := h.parentIn_iff.mp hp
    cases hd.symm.trans hd'
    rw [hline.unique (.variant hpar he hrest)]
    exact Nat.lt_succ_self _
  induction hnp generalizing e rest with
  | single hp => exact hparent hp hd he hline hrest
  | @tail m p _ hp ih =>
    obtain ⟨d', hd', -⟩ := h.parentIn_iff.mp hp
    obtain ⟨between, hbetween⟩ := hall m d' hd'
    exact Nat.lt_trans (hparent hp hd' he hbetween hrest) (ih hd' hbetween)

theorem Declares.acyclic_of_lineages
    (hall : ∀ n d, known.get? n = some d → ∃ line, Lineage known d line) (n : String) :
    ¬ Relation.TransGen (Schema.ParentIn ds) n n := by
  intro hn
  obtain ⟨p, hnp, -⟩ := Relation.TransGen.head'_iff.mp hn
  obtain ⟨d, hd, -⟩ := h.parentIn_iff.mp hnp
  obtain ⟨line, hline⟩ := hall n d hd
  exact Nat.lt_irrefl _ (h.length_lineage_lt hall hn hd hd hline hline)

theorem Declares.isSome_of_acyclic
    (hacyclic : ∀ n, ¬ Relation.TransGen (Schema.ParentIn ds) n n) {n : String} {d : Declaration}
    (hd : known.get? n = some d) : (lineageOf? known known.size d).isSome := by
  rw [Option.isSome_iff_ne_none]
  intro hline
  -- the names of a line that is too long would all differ, and there are not enough of them
  obtain ⟨names, hchain, hlength, hmem⟩ := h.exists_chain hd hline
  have hpair : (n :: names).Pairwise (Relation.TransGen (Schema.ParentIn ds)) :=
    List.isChain_iff_pairwise.mp (hchain.imp fun _ _ => .single)
  have hnodup : (n :: names).Nodup := hpair.imp fun hab he => by
    subst he
    exact hacyclic _ hab
  have hle := (hnodup.subperm hmem).length_le
  rw [List.length_cons, hlength, Dict.keys, List.length_map] at hle
  exact Nat.not_succ_le_self _ hle

theorem Declares.isSome_lineages_iff :
    (∀ n d, known.get? n = some d → (lineageOf? known known.size d).isSome) ↔
      ∀ n, ¬ Relation.TransGen (Schema.ParentIn ds) n n := by
  refine ⟨fun hall => h.acyclic_of_lineages fun n d hd => ?_, fun hacyclic n d hd =>
    h.isSome_of_acyclic hacyclic hd⟩
  obtain ⟨line, hline⟩ := Option.isSome_iff_exists.mp (hall n d hd)
  exact ⟨line, known.size, hline⟩

end

theorem exists_merge_iff {known : Dict Declaration} :
    (∃ s, Schema.merge known = .ok s) ↔
      ∀ n d, known.get? n = some d → (lineageOf? known known.size d).isSome := by
  unfold Schema.merge
  split
  · rename_i hall
    refine ⟨fun _ n d hd => ?_, fun _ => ⟨_, rfl⟩⟩
    exact List.all_eq_true.mp hall (n, d) (Dict.mem_entries_iff.mpr hd)
  · rename_i hall
    refine ⟨fun ⟨s, h⟩ => (by cases h), fun h => absurd (List.all_eq_true.mpr ?_) hall⟩
    exact fun e he => h e.1 e.2 (Dict.mem_entries_iff.mp he)

/-! ## building a schema -/

theorem Schema.ofDeclarations_of_collect {ds : List Declaration} {known : Dict Declaration}
    (h : collect .empty ds = .ok known) :
    ofDeclarations ds = (checkReferences known known.entries).bind fun _ => merge known := by
  unfold ofDeclarations
  simp only [h]
  cases checkReferences known known.entries <;> rfl

theorem Schema.exists_ofDeclarations_iff (ds : List Declaration) :
    (∃ s, ofDeclarations ds = .ok s) ↔ WellFormed ds := by
  constructor
  · rintro ⟨s, hs⟩
    have hcollect : ∃ known, collect .empty ds = .ok known := by
      unfold ofDeclarations at hs
      split at hs
      · cases hs
      · exact ⟨_, ‹_›⟩
    have hnames := (exists_collect_iff.mp hcollect).1
    obtain ⟨known, hknown, hdecl⟩ := collect_eq_ok_iff.mpr hnames
    rw [ofDeclarations_of_collect hknown, bind_eq_ok] at hs
    obtain ⟨_, href, hmerge⟩ := hs
    obtain ⟨hparents, htargets⟩ := hdecl.checkReferences_iff.mp href
    exact ⟨hnames, hparents, htargets,
      hdecl.isSome_lineages_iff.mp (exists_merge_iff.mp ⟨s, hmerge⟩)⟩
  · rintro ⟨hnames, hparents, htargets, hacyclic⟩
    obtain ⟨known, hknown, hdecl⟩ := collect_eq_ok_iff.mpr hnames
    have href := hdecl.checkReferences_iff.mpr ⟨hparents, htargets⟩
    rw [ofDeclarations_of_collect hknown, href, bind_ok, exists_merge_iff]
    exact hdecl.isSome_lineages_iff.mpr hacyclic

end NestedQuery
