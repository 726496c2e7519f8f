import NestedQuery.Proofs.Dict
import NestedQuery.Schema.Build

/-!
# What holds of every schema that is built

`Schema.ofDeclarations` checks a list of declarations and merges what variants inherit.  Here
its result is described without the declarations:

* `Declaration.Built`   a declaration made step by step;
* `Schema.Built`        a schema of such declarations;
* `Schema.Sound`        members are stored under their names, targets and parents are models, and
                        a variant has the members and the line of ancestors of its parent;
* `Schema.Built.sound`  every built schema is sound.
-/

namespace NestedQuery

/-- a declaration made from a name by further steps -/
inductive Declaration.Built : Declaration → Prop
  | named (name : String) : Built (.named name)
  | addAttribute {d : Declaration} (name : String) (type : AttributeType) (h : Built d) :
      Built (d.addAttribute name type)
  | addKeyColumn {d : Declaration} (column : String) (h : Built d) : Built (d.addKeyColumn column)
  | addRelationship {d : Declaration} (name target : String) (c : Cardinality)
      (localColumn remoteColumn : String) (h : Built d) :
      Built (d.addRelationship name target c localColumn remoteColumn)
  | withParent {d : Declaration} (parent : String) (h : Built d) : Built (d.withParent parent)

/-- a schema of declarations that were made step by step -/
def Schema.Built (s : Schema) : Prop :=
  ∃ ds : List Declaration, (∀ d ∈ ds, d.Built) ∧ Schema.ofDeclarations ds = .ok s

/-- members under their names, known targets and parents, and what variants inherit -/
structure Schema.Sound (s : Schema) : Prop where
  name_eq : ∀ {n : String} {m : Model}, s.model? n = some m → m.name = n
  parent_known : ∀ {n p : String} {m : Model}, s.model? n = some m → m.parent = some p →
    ∃ q, s.model? p = some q ∧ m.ancestors = q.lineage
  attribute_named : ∀ {n k : String} {a : Attribute}, s.attribute? n k = some a → a.name = k
  relationship_named : ∀ {n k : String} {r : Relationship}, s.relationship? n k = some r →
    r.name = k
  target_known : ∀ {n k : String} {r : Relationship}, s.relationship? n k = some r →
    ∃ t, s.model? r.target = some t
  attribute_inherited : ∀ {n p k : String} {m : Model}, s.model? n = some m →
    m.parent = some p → (s.attribute? p k).isSome → (s.attribute? n k).isSome
  relationship_inherited : ∀ {n p k : String} {m : Model}, s.model? n = some m →
    m.parent = some p → (s.relationship? p k).isSome → (s.relationship? n k).isSome

/-! ## declarations -/

namespace Declaration

theorem addAttribute_named {d : Declaration} {name : String} {type : AttributeType}
    (h : ∀ k a, d.attributes.get? k = some a → a.name = k) (k : String) (a : Attribute)
    (ha : (d.addAttribute name type).attributes.get? k = some a) : a.name = k := by
  change (d.attributes.insert name _).get? k = some a at ha
  rw [Dict.get?_insert] at ha
  by_cases hk : k = name
  · rw [if_pos hk] at ha
    cases ha
    exact hk.symm
  · rw [if_neg hk] at ha
    exact h k a ha

/-- a new key column is an attribute of type integer, unless it is an attribute already -/
theorem addKeyColumn_attributes (d : Declaration) (column : String) :
    (d.addKeyColumn column).attributes = d.attributes ∨
      (d.addKeyColumn column).attributes = (d.addAttribute column .integer).attributes := by
  simp only [addKeyColumn]
  split
  · exact .inl rfl
  · exact .inr rfl

theorem addKeyColumn_relationships (d : Declaration) (column : String) :
    (d.addKeyColumn column).relationships = d.relationships := by
  simp only [addKeyColumn]
  split <;> rfl

theorem Built.attribute_named {d : Declaration} (h : d.Built) :
    ∀ k a, d.attributes.get? k = some a → a.name = k := by
  induction h with
  | named name =>
    intro k a ha
    cases ha
  | addAttribute name type _ ih => exact addAttribute_named ih
  | @addKeyColumn d column _ ih =>
    rcases addKeyColumn_attributes d column with he | he
    · rw [he]
      exact ih
    · rw [he]
      exact addAttribute_named ih
  | addRelationship name target c localColumn remoteColumn _ ih => exact ih
  | withParent parent _ ih => exact ih

theorem Built.relationship_named {d : Declaration} (h : d.Built) :
    ∀ k r, d.relationships.get? k = some r → r.name = k := by
  induction h with
  | named name =>
    intro k r hr
    cases hr
  | addAttribute name type _ ih => exact ih
  | addKeyColumn column _ ih =>
    rw [addKeyColumn_relationships]
    exact ih
  | addRelationship name target c localColumn remoteColumn _ ih =>
    intro k r hr
    change (Dict.insert _ name _).get? k = some r at hr
    rw [Dict.get?_insert] at hr
    by_cases hk : k = name
    · rw [if_pos hk] at hr
      cases hr
      exact hk.symm
    · rw [if_neg hk] at hr
      exact ih k r hr
  | withParent parent _ ih => exact ih

end Declaration

/-! ## the checks -/

theorem collect_get? {known known' : Dict Declaration} {ds : List Declaration}
    (h : collect known ds = .ok known') {n : String} {d : Declaration}
    (hd : known'.get? n = some d) : known.get? n = some d ∨ d ∈ ds ∧ d.name = n := by
  induction ds generalizing known with
  | nil =>
    cases h
    exact .inl hd
  | cons x rest ih =>
    rw [collect] at h
    split at h
    · cases h
    · rcases ih h with hk | ⟨hm, hn⟩
      · rw [Dict.get?_insert] at hk
        by_cases he : n = x.name
        · rw [if_pos he] at hk
          cases hk
          exact .inr ⟨List.mem_cons_self, he.symm⟩
        · rw [if_neg he] at hk
          exact .inl hk
      · exact .inr ⟨List.mem_cons_of_mem _ hm, hn⟩

theorem checkTargets_ok {known : Dict Declaration} {model : String}
    {entries : List (String × Relationship)} (h : checkTargets known model entries = .ok ()) :
    ∀ e ∈ entries, known.contains e.2.target = true := by
  induction entries with
  | nil =>
    intro e he
    cases he
  | cons x rest ih =>
    rw [checkTargets] at h
    split at h
    · rename_i hx
      intro e he
      rcases List.mem_cons.mp he with rfl | he
      · exact hx
      · exact ih h e he
    · cases h

theorem checkReferences_ok {known : Dict Declaration} {entries : List (String × Declaration)}
    (h : checkReferences known entries = .ok ()) :
    ∀ e ∈ entries, (∀ p, e.2.parent = some p → known.contains p = true) ∧
      ∀ k r, e.2.relationships.get? k = some r → known.contains r.target = true := by
  induction entries with
  | nil =>
    intro e he
    cases he
  | cons x rest ih =>
    rw [checkReferences] at h
    split at h
    · cases h
    · rename_i hp
      split at h
      · cases h
      · rename_i ht
        intro e he
        rcases List.mem_cons.mp he with rfl | he
        · refine ⟨fun p hpar => ?_, fun k r hr => ?_⟩
          · rw [hpar, Option.filter_some] at hp
            cases hc : known.contains p with
            | true => rfl
            | false =>
              rw [hc] at hp
              cases hp
          · exact checkTargets_ok ht (k, r) (Dict.mem_entries_iff.mpr hr)
        · exact ih h e he

/-! ## lines of ancestors -/

theorem lineageOf?_succ (known : Dict Declaration) (depth : Nat) (d : Declaration) :
    lineageOf? known (depth + 1) d =
      match d.parent.bind known.get? with
      | none => some [d]
      | some parent => (lineageOf? known depth parent).map (d :: ·) := rfl

theorem lineageOf?_eq_cons {known : Dict Declaration} {depth : Nat} {d : Declaration}
    {line : List Declaration} (h : lineageOf? known depth d = some line) :
    ∃ rest, line = d :: rest := by
  cases depth with
  | zero => cases h
  | succ depth =>
    rw [lineageOf?_succ] at h
    split at h
    · cases h
      exact ⟨[], rfl⟩
    · obtain ⟨rest, -, rfl⟩ := Option.map_eq_some_iff.mp h
      exact ⟨rest, rfl⟩

/-- more generations change nothing once the line ends -/
theorem lineageOf?_mono {known : Dict Declaration} {depth : Nat} {d : Declaration}
    {line : List Declaration} (h : lineageOf? known depth d = some line) :
    lineageOf? known (depth + 1) d = some line := by
  induction depth generalizing d line with
  | zero => cases h
  | succ depth ih =>
    rw [lineageOf?_succ] at h ⊢
    split at h
    · exact h
    · rename_i parent _
      obtain ⟨rest, hrest, rfl⟩ := Option.map_eq_some_iff.mp h
      rw [ih hrest]
      rfl

/-- behind a declaration with a parent comes the line of the parent -/
theorem lineageOf?_parent {known : Dict Declaration} {depth : Nat} {d parent : Declaration}
    {p : String} {line : List Declaration} (h : lineageOf? known depth d = some line)
    (hd : d.parent = some p) (hp : known.get? p = some parent) :
    ∃ rest, lineageOf? known depth parent = some rest ∧ line = d :: rest := by
  cases depth with
  | zero => cases h
  | succ depth =>
    rw [lineageOf?_succ, hd, Option.bind_some, hp] at h
    obtain ⟨rest, hrest, rfl⟩ := Option.map_eq_some_iff.mp h
    exact ⟨rest, lineageOf?_mono hrest, rfl⟩

theorem lineageOf?_root {known : Dict Declaration} {depth : Nat} {d : Declaration}
    {line : List Declaration} (h : lineageOf? known depth d = some line) (hd : d.parent = none) :
    line = [d] := by
  cases depth with
  | zero => cases h
  | succ depth =>
    rw [lineageOf?_succ, hd] at h
    cases h
    rfl

theorem lineageOf?_mem {known : Dict Declaration} {depth : Nat} {d x : Declaration}
    {line : List Declaration} (h : lineageOf? known depth d = some line) (hx : x ∈ line) :
    x = d ∨ ∃ n, known.get? n = some x := by
  induction depth generalizing d line with
  | zero => cases h
  | succ depth ih =>
    rw [lineageOf?_succ] at h
    split at h
    · cases h
      exact .inl (List.mem_singleton.mp hx)
    · rename_i parent hparent
      obtain ⟨rest, hrest, rfl⟩ := Option.map_eq_some_iff.mp h
      rcases List.mem_cons.mp hx with hx | hx
      · exact .inl hx
      · obtain ⟨p, -, hp⟩ := Option.bind_eq_some_iff.mp hparent
        rcases ih hrest hx with rfl | hx
        · exact .inr ⟨p, hp⟩
        · exact .inr hx

theorem get?_attributesOfLineage (line : List Declaration) (k : String) :
    (attributesOfLineage line).get? k = line.findSome? (·.attributes.get? k) := by
  induction line with
  | nil => rfl
  | cons d rest ih =>
    rw [attributesOfLineage, Dict.get?_overlay, ih, List.findSome?_cons]
    cases d.attributes.get? k <;> rfl

theorem get?_relationshipsOfLineage (line : List Declaration) (k : String) :
    (relationshipsOfLineage line).get? k = line.findSome? (·.relationships.get? k) := by
  induction line with
  | nil => rfl
  | cons d rest ih =>
    rw [relationshipsOfLineage, Dict.get?_overlay, ih, List.findSome?_cons]
    cases d.relationships.get? k <;> rfl

/-! ## the merged schema -/

/-- what is behind the models of a built schema: the declarations and their lines -/
structure Merged (known : Dict Declaration) (s : Schema) : Prop where
  model? : ∀ {n : String} {m : Model}, s.model? n = some m → ∃ d line, known.get? n = some d ∧
    lineageOf? known known.size d = some line ∧ m = Model.ofLineage n line
  known : ∀ {n : String} {d : Declaration}, known.get? n = some d →
    ∃ line, lineageOf? known known.size d = some line ∧
      s.model? n = some (Model.ofLineage n line)

theorem merged_of_merge {known : Dict Declaration} {s : Schema}
    (h : Schema.merge known = .ok s) : Merged known s := by
  rw [Schema.merge] at h
  split at h
  · rename_i hall
    cases h
    have hline : ∀ {n : String} {d : Declaration}, known.get? n = some d →
        ∃ line, lineageOf? known known.size d = some line := fun {n d} hd =>
      Option.isSome_iff_exists.mp
        (List.all_eq_true.mp hall (n, d) (Dict.mem_entries_iff.mpr hd))
    have hmodel : ∀ {n : String} {d : Declaration} {line : List Declaration},
        known.get? n = some d → lineageOf? known known.size d = some line →
        Schema.model? ⟨known.map fun name d =>
            .ofLineage name ((lineageOf? known known.size d).getD [])⟩ n =
          some (Model.ofLineage n line) := fun {n d line} hd hl => by
      rw [Schema.model?, Dict.get?_map, hd, Option.map_some, hl]
      rfl
    refine ⟨fun {n m} hm => ?_, fun {n d} hd => ?_⟩
    · cases hd : known.get? n with
      | none =>
        rw [Schema.model?, Dict.get?_map, hd] at hm
        cases hm
      | some d =>
        obtain ⟨line, hl⟩ := hline hd
        rw [hmodel hd hl] at hm
        cases hm
        exact ⟨d, line, rfl, hl, rfl⟩
    · obtain ⟨line, hl⟩ := hline hd
      exact ⟨line, hl, hmodel hd hl⟩
  · cases h

section
variable {known : Dict Declaration} {s : Schema} (h : Merged known s)
  (hname : ∀ {n : String} {d : Declaration}, known.get? n = some d → d.name = n)
  (hparent : ∀ {n p : String} {d : Declaration}, known.get? n = some d → d.parent = some p →
    known.contains p = true)
include h hname hparent

/-- the line of a variant is its declaration before the line of its parent -/
theorem Merged.parent {n p : String} {m : Model} (hm : s.model? n = some m)
    (hp : m.parent = some p) :
    ∃ d rest, m = Model.ofLineage n (d :: rest) ∧ s.model? p = some (Model.ofLineage p rest) ∧
      rest.map (·.name) = (Model.ofLineage p rest).lineage := by
  obtain ⟨d, line, hd, hline, rfl⟩ := h.model? hm
  cases hdp : d.parent with
  | none =>
    rw [lineageOf?_root hline hdp] at hp
    cases hp
  | some p' =>
    obtain ⟨dp, hdp'⟩ := Dict.contains_iff.mp (hparent hd hdp)
    obtain ⟨rest, hrest, rfl⟩ := lineageOf?_parent hline hdp hdp'
    obtain ⟨line, hline', hmp⟩ := h.known hdp'
    obtain ⟨tail, rfl⟩ := lineageOf?_eq_cons hrest
    have he : some p' = some p := by
      rw [← hp, ← hname hdp']
      rfl
    cases he
    have hl : line = dp :: tail := Option.some.inj (hline'.symm.trans hrest)
    rw [hl] at hmp
    refine ⟨d, dp :: tail, rfl, hmp, ?_⟩
    show dp.name :: tail.map (·.name) = p :: tail.map (·.name)
    rw [hname hdp']

end

theorem Schema.Built.sound {s : Schema} (h : s.Built) : s.Sound := by
  obtain ⟨ds, hds, h⟩ := h
  rw [Schema.ofDeclarations] at h
  split at h
  · cases h
  rename_i known hcollect
  split at h
  · cases h
  rename_i href
  have hm := merged_of_merge h
  have hdecl : ∀ {n : String} {d : Declaration}, known.get? n = some d → d ∈ ds ∧ d.name = n :=
    fun hd => (collect_get? hcollect hd).resolve_left fun he => by cases he
  have hbuilt : ∀ {n : String} {d : Declaration}, known.get? n = some d → d.Built :=
    fun hd => hds _ (hdecl hd).1
  have hchecked := fun {n : String} {d : Declaration} (hd : known.get? n = some d) =>
    checkReferences_ok href (n, d) (Dict.mem_entries_iff.mpr hd)
  have hparent := fun {n p : String} {m : Model} (hn : s.model? n = some m)
      (hp : m.parent = some p) =>
    hm.parent (fun hd => (hdecl hd).2) (fun hd => (hchecked hd).1 _) hn hp
  -- every member of a model is one of a declaration in its line
  have hline : ∀ {n : String} {m : Model}, s.model? n = some m →
      ∃ line, m = Model.ofLineage n line ∧ ∀ x ∈ line, ∃ k, known.get? k = some x := by
    intro n m hn
    obtain ⟨d, line, hd, hl, rfl⟩ := hm.model? hn
    refine ⟨line, rfl, fun x hx => ?_⟩
    rcases lineageOf?_mem hl hx with rfl | hx
    · exact ⟨n, hd⟩
    · exact hx
  have hrel : ∀ {n k : String} {r : Relationship}, s.relationship? n k = some r →
      ∃ i x, known.get? i = some x ∧ x.relationships.get? k = some r := by
    intro n k r hr
    obtain ⟨m, hn, hr⟩ := Option.bind_eq_some_iff.mp hr
    obtain ⟨line, rfl, hl⟩ := hline hn
    obtain ⟨x, hx, hr⟩ := List.exists_of_findSome?_eq_some
      ((get?_relationshipsOfLineage line k).symm.trans hr)
    obtain ⟨i, hi⟩ := hl x hx
    exact ⟨i, x, hi, hr⟩
  refine ⟨?_, ?_, ?_, ?_, ?_, ?_, ?_⟩
  · intro n m hn
    obtain ⟨line, rfl, -⟩ := hline hn
    rfl
  · intro n p m hn hp
    obtain ⟨d, rest, rfl, hq, hl⟩ := hparent hn hp
    exact ⟨_, hq, hl⟩
  · intro n k a ha
    obtain ⟨m, hn, ha⟩ := Option.bind_eq_some_iff.mp ha
    obtain ⟨line, rfl, hl⟩ := hline hn
    obtain ⟨x, hx, ha⟩ := List.exists_of_findSome?_eq_some
      ((get?_attributesOfLineage line k).symm.trans ha)
    obtain ⟨i, hi⟩ := hl x hx
    exact (hbuilt hi).attribute_named k a ha
  · intro n k r hr
    obtain ⟨i, x, hi, hr⟩ := hrel hr
    exact (hbuilt hi).relationship_named k r hr
  · intro n k r hr
    obtain ⟨i, x, hi, hr⟩ := hrel hr
    obtain ⟨d, hd⟩ := Dict.contains_iff.mp ((hchecked hi).2 k r hr)
    obtain ⟨line, -, ht⟩ := hm.known hd
    exact ⟨_, ht⟩
  · intro n p k m hn hp hk
    obtain ⟨d, rest, rfl, hq, -⟩ := hparent hn hp
    rw [Schema.attribute?, hq] at hk
    rw [Schema.attribute?, hn]
    show ((d.attributes.overlay (attributesOfLineage rest)).get? k).isSome
    rw [Dict.get?_overlay, Option.isSome_or]
    exact Bool.or_eq_true_iff.mpr (.inr hk)
  · intro n p k m hn hp hk
    obtain ⟨d, rest, rfl, hq, -⟩ := hparent hn hp
    rw [Schema.relationship?, hq] at hk
    rw [Schema.relationship?, hn]
    show ((d.relationships.overlay (relationshipsOfLineage rest)).get? k).isSome
    rw [Dict.get?_overlay, Option.isSome_or]
    exact Bool.or_eq_true_iff.mpr (.inr hk)

end NestedQuery
