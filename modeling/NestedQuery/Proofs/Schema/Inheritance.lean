import Mathlib
import NestedQuery.Proofs.Schema.Rounds
import NestedQuery.Proofs.Schema.Targets
import NestedQuery.Proofs.Schema.Variants

/-!
# Inheritance as a look-up along the parents

Models are merged once, each with a parent that is merged already.  What comes of this can be said
of the declarations alone: a member of a model is that of the nearest declaration that has it, on
the way from the model to its parent, to the parent of that and so on.

* `Schema.LineIn`                  the declarations on this way;
* `Nearest`                        the first of them in which something is found;
* `Schema.InheritsAlong`           the members and the key of a model are the nearest ones;
* `Schema.targetOf_ok_iff`         the table of targets leads to known models;
* `Schema.Built.targetOf_iff`      and in schemas that are built, to what relationships lead to;
* `Schema.ofDeclarations_inherits`    what a list of declarations comes to;
* `Crate.place_without_target`     a relationship under another name than its own.
-/

namespace NestedQuery

/-- a declaration, its parent, the parent of that and so on up to one without a parent -/
inductive Schema.LineIn (ds : List Declaration) : Declaration → List Declaration → Prop
  | root {d : Declaration} (hd : d ∈ ds) (h : d.parent = none) : LineIn ds d [d]
  | variant {d e : Declaration} {line : List Declaration} (hd : d ∈ ds)
      (hp : d.parent = some e.name) (h : LineIn ds e line) : LineIn ds d (d :: line)

/-- the first declaration of a line that `get` finds something in has `a` -/
def Nearest {α : Type} (get : Declaration → Option α) (line : List Declaration) (a : α) : Prop :=
  ∃ nearer d farther, line = nearer ++ d :: farther ∧ get d = some a ∧ ∀ e ∈ nearer, get e = none

/-- the primary key of a declaration, unless it is empty -/
def Declaration.ownKey? (d : Declaration) : Option (List String) :=
  if d.primaryKey.isEmpty then none else some d.primaryKey

namespace Schema

/-- the members and the key of a model are those of the nearest declarations that have any -/
structure InheritsAlong (s : Schema) (n : String) (line : List Declaration) : Prop where
  known : ∃ m, s.model? n = some m ∧ m.name = n
  attribute_iff : ∀ k a, s.attributeOf n k = .ok a ↔ Nearest (·.attributes.get? k) line a
  no_attribute_iff : ∀ k e, s.attributeOf n k = .error e ↔
    e = .unknownAttribute n k ∧ ∀ d ∈ line, d.attributes.get? k = none
  relationship_iff : ∀ k r, s.relationshipOf n k = .ok r ↔ Nearest (·.relationships.get? k) line r
  no_relationship_iff : ∀ k e, s.relationshipOf n k = .error e ↔
    e = .unknownRelationship n k ∧ ∀ d ∈ line, d.relationships.get? k = none
  key_iff : ∀ m, s.model? n = some m → ∀ key, key ≠ [] →
    (m.primaryKey = key ↔ Nearest Declaration.ownKey? line key)
  no_key_iff : ∀ m, s.model? n = some m → (m.primaryKey = [] ↔ ∀ d ∈ line, d.primaryKey = [])

end Schema

/-! ## the nearest declaration -/

theorem nearest_iff {α : Type} {get : Declaration → Option α} {line : List Declaration} {a : α} :
    Nearest get line a ↔ line.findSome? get = some a := List.findSome?_eq_some_iff.symm

theorem Declaration.ownKey?_eq_none_iff {d : Declaration} :
    d.ownKey? = none ↔ d.primaryKey = [] := by
  rw [ownKey?]
  cases d.primaryKey <;> simp

theorem Declaration.ne_nil_of_ownKey? {d : Declaration} {key : List String}
    (h : d.ownKey? = some key) : key ≠ [] := by
  rw [ownKey?] at h
  split at h
  · cases h
  · rename_i hne
    cases h
    exact fun hnil => hne (List.isEmpty_iff.mpr hnil)

theorem keyOfLineage_eq (line : List Declaration) :
    keyOfLineage line = (line.findSome? Declaration.ownKey?).getD [] := by
  induction line with
  | nil => rfl
  | cons d rest ih =>
    rw [keyOfLineage, List.findSome?_cons, Declaration.ownKey?, ih]
    cases d.primaryKey.isEmpty <;> rfl

theorem keyOfLineage_eq_iff {line : List Declaration} {key : List String} (hne : key ≠ []) :
    keyOfLineage line = key ↔ Nearest Declaration.ownKey? line key := by
  rw [keyOfLineage_eq, nearest_iff]
  cases line.findSome? Declaration.ownKey? <;> simp [hne.symm]

theorem keyOfLineage_eq_nil_iff {line : List Declaration} :
    keyOfLineage line = [] ↔ ∀ d ∈ line, d.primaryKey = [] := by
  simp only [← Declaration.ownKey?_eq_none_iff]
  rw [keyOfLineage_eq, ← List.findSome?_eq_none_iff]
  cases hkey : line.findSome? Declaration.ownKey? with
  | none => simp
  | some key =>
    obtain ⟨d, -, hd⟩ := List.exists_of_findSome?_eq_some hkey
    simp [Declaration.ne_nil_of_ownKey? hd]

namespace Schema

/-- a model that is merged along a line has the nearest members of the line -/
theorem inheritsAlong_of_model {s : Schema} {n : String} {line : List Declaration}
    (h : s.model? n = some (.ofLineage n line)) : s.InheritsAlong n line where
  known := ⟨_, h, rfl⟩
  attribute_iff k a := by
    rw [attributeOf_ok_iff, attribute?, h, Option.bind_some, nearest_iff,
      ← get?_attributesOfLineage]
    rfl
  no_attribute_iff k e := by
    rw [attributeOf_error_iff h, ← List.findSome?_eq_none_iff, ← get?_attributesOfLineage]
    rfl
  relationship_iff k r := by
    rw [relationshipOf_ok_iff, relationship?, h, Option.bind_some, nearest_iff,
      ← get?_relationshipsOfLineage]
    rfl
  no_relationship_iff k e := by
    rw [relationshipOf_error_iff h, ← List.findSome?_eq_none_iff, ← get?_relationshipsOfLineage]
    rfl
  key_iff m hm key hne := by
    cases h.symm.trans hm
    exact keyOfLineage_eq_iff hne
  no_key_iff m hm := by
    cases h.symm.trans hm
    exact keyOfLineage_eq_nil_iff

/-! ## lines of declarations -/

theorem LineIn.mem_all {ds : List Declaration} {d : Declaration} {line : List Declaration}
    (h : LineIn ds d line) : ∀ e ∈ line, e ∈ ds := by
  induction h with
  | root hd _ => exact List.forall_mem_singleton.mpr hd
  | variant hd _ _ ih => exact List.forall_mem_cons.mpr ⟨hd, ih⟩

theorem LineIn.mem {ds : List Declaration} {d : Declaration} {line : List Declaration}
    (h : LineIn ds d line) : d ∈ ds := by
  cases h with
  | root hd _ => exact hd
  | variant hd _ _ => exact hd

section
variable {ds : List Declaration} {known : Dict Declaration} (hknown : Declares known ds)
include hknown

theorem LineIn.lineage {d : Declaration} {line : List Declaration} (h : LineIn ds d line) :
    Lineage known d line := by
  induction h with
  | root _ h => exact .root h
  | @variant d e line _ hp h ih => exact .variant hp ((hknown e.name e).mpr ⟨h.mem, rfl⟩) ih

/-- a line that ends within some depth is one of declarations of the list -/
theorem lineIn_of_lineageOf?
    (hparents : ∀ d ∈ ds, ∀ p, d.parent = some p → ∃ e ∈ ds, e.name = p) {depth : Nat}
    {d : Declaration} {line : List Declaration} (hd : d ∈ ds)
    (h : lineageOf? known depth d = some line) : LineIn ds d line := by
  induction depth generalizing d line with
  | zero => cases h
  | succ depth ih =>
    cases hp : d.parent with
    | none =>
      rw [lineageOf?_root h hp]
      exact .root hd hp
    | some p =>
      obtain ⟨e, he, rfl⟩ := hparents d hd p hp
      rw [lineageOf?_succ, hp, Option.bind_some, (hknown e.name e).mpr ⟨he, rfl⟩] at h
      obtain ⟨rest, hrest, rfl⟩ := Option.map_eq_some_iff.mp h
      exact .variant hd hp (ih he hrest)

end

/-- what a list of declarations is merged from -/
theorem exists_declares {ds : List Declaration} {s : Schema} (h : ofDeclarations ds = .ok s) :
    ∃ known, Declares known ds ∧ merge known = .ok s := by
  have hwf := (exists_ofDeclarations_iff ds).mp ⟨s, h⟩
  obtain ⟨known, hcollect, hknown⟩ := collect_eq_ok_iff.mpr hwf.names_differ
  rw [ofDeclarations_of_collect hcollect] at h
  obtain ⟨-, -, h⟩ := bind_eq_ok.mp h
  exact ⟨known, hknown, h⟩

section
variable {ds : List Declaration} {s : Schema} (h : ofDeclarations ds = .ok s)
include h

/-- every declaration has one line, along which its model is merged -/
theorem exists_line {d : Declaration} (hd : d ∈ ds) :
    ∃ line, (∀ l, LineIn ds d l ↔ l = line) ∧
      s.model? d.name = some (.ofLineage d.name line) := by
  obtain ⟨known, hknown, hmerge⟩ := exists_declares h
  have hparents := ((exists_ofDeclarations_iff ds).mp ⟨s, h⟩).parents_declared
  obtain ⟨line, hline, hm⟩ :=
    (merged_of_merge hmerge).known ((hknown d.name d).mpr ⟨hd, rfl⟩)
  refine ⟨line, fun l => ⟨fun hl => ?_, ?_⟩, hm⟩
  · exact (hl.lineage hknown).unique ⟨_, hline⟩
  · rintro rfl
    exact lineIn_of_lineageOf? hknown hparents hd hline

/-- the models are those of the declarations -/
theorem model_declared {n : String} {m : Model} (hm : s.model? n = some m) :
    ∃ d ∈ ds, d.name = n := by
  obtain ⟨known, hknown, hmerge⟩ := exists_declares h
  obtain ⟨d, line, hd, -, -⟩ := (merged_of_merge hmerge).model? hm
  exact ⟨d, (hknown n d).mp hd⟩

/-- a relationship of a model is one of a declaration -/
theorem relationship_declared {n k : String} {r : Relationship}
    (hr : s.relationship? n k = some r) :
    (∃ m, s.model? n = some m ∧ m.name = n) ∧ ∃ e ∈ ds, e.relationships.get? k = some r := by
  obtain ⟨m, hm, -⟩ := Option.bind_eq_some_iff.mp hr
  obtain ⟨d, hd, rfl⟩ := model_declared h hm
  obtain ⟨line, hline, hmodel⟩ := exists_line h hd
  have hinherits := inheritsAlong_of_model hmodel
  obtain ⟨nearer, e, farther, rfl, he, -⟩ :=
    (hinherits.relationship_iff k r).mp (relationshipOf_ok_iff.mpr hr)
  exact ⟨hinherits.known, e, ((hline _).mpr rfl).mem_all e
    (List.mem_append_right _ List.mem_cons_self), he⟩

end

/-! ## what relationships lead to -/

section
variable {ds : List Declaration} {s : Schema} (h : ofDeclarations ds = .ok s)
include h

theorem name_eq_of_ofDeclarations {n : String} {m : Model} (hm : s.model? n = some m) :
    m.name = n := by
  obtain ⟨d, hd, rfl⟩ := model_declared h hm
  obtain ⟨line, -, hmodel⟩ := exists_line h hd
  cases hmodel.symm.trans hm
  rfl

/-- the order of the models in the table does not count -/
theorem lookup_targetsOf_perm {models : List Model} (hperm : models.Perm s.models.values)
    (n k : String) : (targetsOf models).reverse.lookup (n, k) = s.targetOf? n k := by
  have hnamed (n : String) (m : Model) (hm : s.model? n = some m) : m.name = n :=
    name_eq_of_ofDeclarations h hm
  rw [targetOf?, targets, lookup_targetsOf hnamed hperm, lookup_targetsOf hnamed (.refl _)]

theorem targetOf?_eq (n k : String) :
    s.targetOf? n k = (s.model? n).bind (·.targetNamed? k) :=
  lookup_targetsOf (fun _ _ hm => name_eq_of_ofDeclarations h hm) (.refl _) n k

/-- the targets in the table are models -/
theorem targetOf_ok_iff {n k t : String} :
    s.targetOf n k = .ok t ↔ ∃ m, s.model? n = some m ∧ m.targetNamed? k = some t := by
  rw [← Option.bind_eq_some_iff, ← targetOf?_eq h, targetOf, targetModelOf]
  cases hk : s.targetOf? n k with
  | none => exact iff_of_false nofun nofun
  | some target =>
    rw [targetOf?_eq h] at hk
    obtain ⟨m, hm, hnamed⟩ := Option.bind_eq_some_iff.mp hk
    obtain ⟨key, r, hr, -, rfl⟩ := Model.exists_of_targetNamed? hnamed
    have hrel : s.relationship? n key = some r := Option.bind_eq_some_iff.mpr ⟨m, hm, hr⟩
    obtain ⟨-, e, he, hget⟩ := relationship_declared h hrel
    obtain ⟨d, hd, hname⟩ :=
      ((exists_ofDeclarations_iff ds).mp ⟨s, h⟩).targets_declared e he key r hget
    obtain ⟨line, -, hmodel⟩ := exists_line h hd
    rw [hname] at hmodel
    show (s.modelNamed r.target).map (·.name) = .ok t ↔ _
    rw [modelNamed_of_some hmodel, map_ok, Except.ok.injEq, Option.some.injEq]
    rfl

/-- a target is found under the names that relationships have, not under those they are kept
under -/
theorem exists_targetOf_iff {n k : String} :
    (∃ t, s.targetOf n k = .ok t) ↔
      ∃ key r, s.relationshipOf n key = .ok r ∧ r.name = k := by
  simp only [targetOf_ok_iff h, relationshipOf_ok_iff, relationship?, Option.bind_eq_some_iff]
  constructor
  · rintro ⟨t, m, hm, ht⟩
    obtain ⟨key, r, hr, hname⟩ := Model.exists_targetNamed?_iff.mp ⟨t, ht⟩
    exact ⟨key, r, ⟨m, hm, hr⟩, hname⟩
  · rintro ⟨key, r, ⟨m, hm, hr⟩, hname⟩
    obtain ⟨t, ht⟩ := Model.exists_targetNamed?_iff.mpr ⟨key, r, hr, hname⟩
    exact ⟨t, m, hm, ht⟩

/-- the table agrees with a model that keeps its relationships under their names -/
theorem targetOf_iff_relationshipOf {n : String}
    (hnamed : ∀ key r, s.relationshipOf n key = .ok r → r.name = key) (k t : String) :
    s.targetOf n k = .ok t ↔ ∃ r, s.relationshipOf n k = .ok r ∧ r.target = t := by
  simp only [relationshipOf_ok_iff, relationship?] at hnamed ⊢
  rw [targetOf_ok_iff h]
  cases hm : s.model? n with
  | none => simp
  | some m =>
    simp only [hm, Option.bind_some] at hnamed ⊢
    simp only [Option.some.injEq, exists_eq_left', Model.targetNamed?_eq hnamed,
      Option.map_eq_some_iff]

/-- declarations that are made step by step keep relationships under their names, and so do the
models -/
theorem relationshipOf_named (hbuilt : ∀ d ∈ ds, d.Built) {n key : String} {r : Relationship}
    (hr : s.relationshipOf n key = .ok r) : r.name = key := by
  obtain ⟨-, e, he, hget⟩ := relationship_declared h (relationshipOf_ok_iff.mp hr)
  exact (hbuilt e he).relationship_named key r hget

end

/-- in a schema of declarations that are made step by step, a look-up of a relationship says what the
table says -/
theorem Built.targetOf_iff {s : Schema} (hs : s.Built) {n k t : String} :
    s.targetOf n k = .ok t ↔ ∃ r, s.relationshipOf n k = .ok r ∧ r.target = t := by
  obtain ⟨ds, hbuilt, h⟩ := hs
  exact targetOf_iff_relationshipOf h (fun _ _ => relationshipOf_named h hbuilt) k t

end Schema

/-- what is built of a list of declarations.  Rounds that merge parents first end with the schema,
in whatever order they take the declarations.  Its models are those of the list, and each has the
attributes, the relationships and the key that are nearest on its one way up, and no others.  The
table of targets, with the models in whatever order, knows relationships by their own names, and so
it agrees with models that keep their relationships under these. -/
theorem Schema.ofDeclarations_inherits {ds : List Declaration} {s : Schema}
    (h : ofDeclarations ds = .ok s) :
    (∀ pending r, pending.Perm ds → (Rounds pending .empty r ↔ r = .ok s.models)) ∧
      (∀ n, (∃ m, s.model? n = some m) ↔ ∃ d ∈ ds, d.name = n) ∧
      (∀ d ∈ ds, ∃ line, (∀ l, LineIn ds d l ↔ l = line) ∧ s.InheritsAlong d.name line) ∧
      (∀ models, models.Perm s.models.values → ∀ n k,
        (targetsOf models).reverse.lookup (n, k) = s.targetOf? n k) ∧
      (∀ n k, (∃ t, s.targetOf n k = .ok t) ↔
        ∃ key r, s.relationshipOf n key = .ok r ∧ r.name = k) ∧
      ∀ n, (∀ key r, s.relationshipOf n key = .ok r → r.name = key) →
        ∀ k t, s.targetOf n k = .ok t ↔ ∃ r, s.relationshipOf n k = .ok r ∧ r.target = t := by
  refine ⟨fun pending r hperm => ?_, fun n => ⟨fun ⟨m, hm⟩ => model_declared h hm, ?_⟩,
    fun d hd => ?_, fun models hperm n k => lookup_targetsOf_perm h hperm n k,
    fun n k => exists_targetOf_iff h, fun n hnamed k t => targetOf_iff_relationshipOf h hnamed k t⟩
  · have hwf := (exists_ofDeclarations_iff ds).mp ⟨s, h⟩
    obtain ⟨known, hknown, hmerge⟩ := exists_declares h
    rw [rounds_iff hknown hwf.parents_declared hwf.names_differ hperm, hmerge, map_ok]
  · rintro ⟨d, hd, rfl⟩
    obtain ⟨line, -, hm⟩ := exists_line h hd
    exact ⟨_, hm⟩
  · obtain ⟨line, hline, hm⟩ := exists_line h hd
    exact ⟨line, hline, inheritsAlong_of_model hm⟩

/-! ## vessels with overridden members -/

namespace Stock

/-- a tube is a vessel of another volume, and a frozen tube has its own key and many contents; it
is declared before what it descends from -/
def declarations : List Declaration :=
  [(((Declaration.named "CryoTube").addKeyColumn "code").addRelationship "content" "Sample" .many
      "code" "tube").withParent "Tube",
    (Declaration.named "Sample").addKeyColumn "id",
    ((Declaration.named "Tube").addAttribute "volume" .decimal).withParent "Vessel",
    (((Declaration.named "Vessel").addKeyColumn "id").addAttribute "volume" .integer).addRelationship
      "content" "Sample" .one "id" "id"]

def schema : Schema := (Schema.ofDeclarations declarations).toOption.getD .empty

theorem ofDeclarations_eq : Schema.ofDeclarations declarations = .ok schema := by cbv

theorem built : ∀ d ∈ declarations, d.Built := by
  intro d hd
  simp only [declarations, List.mem_cons, List.not_mem_nil, or_false] at hd
  rcases hd with rfl | rfl | rfl | rfl
  · exact .withParent _ (.addRelationship _ _ _ _ _ (.addKeyColumn _ (.named _)))
  · exact .addKeyColumn _ (.named _)
  · exact .withParent _ (.addAttribute _ _ (.named _))
  · exact .addRelationship _ _ _ _ _ (.addAttribute _ _ (.addKeyColumn _ (.named _)))

theorem ofDeclarations_inherits_stock :
    Schema.ofDeclarations declarations = .ok schema ∧
      (∀ pending r, pending.Perm declarations →
        (Schema.Rounds pending .empty r ↔ r = .ok schema.models)) ∧
      (∀ n, (∃ m, schema.model? n = some m) ↔ ∃ d ∈ declarations, d.name = n) ∧
      (∀ d ∈ declarations, ∃ line, (∀ l, Schema.LineIn declarations d l ↔ l = line) ∧
        schema.InheritsAlong d.name line) ∧
      (∀ models, models.Perm schema.models.values → ∀ n k,
        (Schema.targetsOf models).reverse.lookup (n, k) = schema.targetOf? n k) ∧
      (∀ n k, (∃ t, schema.targetOf n k = .ok t) ↔
        ∃ key r, schema.relationshipOf n key = .ok r ∧ r.name = k) ∧
      ∀ n k t, schema.targetOf n k = .ok t ↔
        ∃ r, schema.relationshipOf n k = .ok r ∧ r.target = t := by
  obtain ⟨hrounds, hmodels, hlines, hperm, hfound, hagrees⟩ :=
    Schema.ofDeclarations_inherits ofDeclarations_eq
  exact ⟨ofDeclarations_eq, hrounds, hmodels, hlines, hperm, hfound,
    fun n => hagrees n fun _ _ => Schema.relationshipOf_named ofDeclarations_eq built⟩

/-- the volume is that of the tube, not of the vessel, and the identifier that of the vessel -/
example : (schema.attributeOf "CryoTube" "volume").map (·.model) = .ok "Tube" ∧
    (schema.attributeOf "CryoTube" "id").map (·.model) = .ok "Vessel" := by
  constructor <;> cbv

end Stock

/-! ## a relationship under another name -/

namespace Crate

/-- the relationship `spot` is kept under the name `place` -/
def crate : Declaration where
  name := "Crate"
  primaryKey := []
  attributes := .empty
  relationships := .ofList [("place", ⟨"Crate", "spot", "Rack", .one, "spot", "id"⟩),
    ("rack", ⟨"Crate", "rack", "Rack", .one, "spot", "id"⟩)]
  parent := none

/-- a small crate has an attribute of the name of a relationship of crates -/
def declarations : List Declaration :=
  [crate, (Declaration.named "Rack").addKeyColumn "id",
    ((Declaration.named "SmallCrate").addAttribute "rack" .integer).withParent "Crate"]

def schema : Schema := (Schema.ofDeclarations declarations).toOption.getD .empty

/-- the place of a crate is known, but not what it leads to; and an attribute that is nearer hides no
relationship -/
theorem place_without_target :
    Schema.ofDeclarations declarations = .ok schema ∧
      (schema.relationshipOf "Crate" "place").map (·.target) = .ok "Rack" ∧
      schema.targetOf "Crate" "place" = .error (.unknownRelationship "Crate" "place") ∧
      schema.targetOf "Crate" "spot" = .ok "Rack" ∧
      (schema.attributeOf "SmallCrate" "rack").map (·.model) = .ok "SmallCrate" ∧
      (schema.relationshipOf "SmallCrate" "rack").map (·.model) = .ok "Crate" := by
  refine ⟨?_, ?_, ?_, ?_, ?_, ?_⟩ <;> cbv

end Crate

end NestedQuery
