import NestedQuery.Proofs.Dict
import NestedQuery.Schema.Lookup

/-!
# The table of targets

What relationships lead to is read in a table, under the name of a model and the name that the
relationship itself has.  A model may keep the relationship under another key.

* `Model.targetNamed?`          what the relationships of a model with a name lead to;
* `Schema.lookup_targetsOf`     the table has just that, in whatever order the models are;
* `Model.targetNamed?_eq`       with relationships under their own names it has what they lead to.
-/

namespace NestedQuery

/-- what the last relationship with a name leads to -/
def Model.targetNamed? (m : Model) (k : String) : Option String :=
  (m.relationships.values.reverse.find? fun r => r.name == k).map (·.target)

namespace Model
variable {m : Model} {k : String}

theorem mem_relationships_iff {r : Relationship} :
    r ∈ m.relationships.values ↔ ∃ key, m.relationships.get? key = some r := by
  rw [Dict.values, List.mem_map]
  constructor
  · rintro ⟨⟨key, r⟩, he, rfl⟩
    exact ⟨key, Dict.mem_entries_iff.mp he⟩
  · rintro ⟨key, hr⟩
    exact ⟨(key, r), Dict.mem_entries_iff.mpr hr, rfl⟩

theorem exists_of_targetNamed? {t : String} (h : m.targetNamed? k = some t) :
    ∃ key r, m.relationships.get? key = some r ∧ r.name = k ∧ r.target = t := by
  obtain ⟨r, hfind, rfl⟩ := Option.map_eq_some_iff.mp h
  have hmem := List.mem_reverse.mp (List.mem_of_find?_eq_some hfind)
  have hname := List.find?_some hfind
  obtain ⟨key, hr⟩ := mem_relationships_iff.mp hmem
  exact ⟨key, r, hr, eq_of_beq hname, rfl⟩

theorem exists_targetNamed?_iff :
    (∃ t, m.targetNamed? k = some t) ↔ ∃ key r, m.relationships.get? key = some r ∧ r.name = k := by
  constructor
  · rintro ⟨t, ht⟩
    obtain ⟨key, r, hr, hname, -⟩ := exists_of_targetNamed? ht
    exact ⟨key, r, hr, hname⟩
  · rintro ⟨key, r, hr, rfl⟩
    have hmem := List.mem_reverse.mpr (mem_relationships_iff.mpr ⟨key, hr⟩)
    have hfound : (m.relationships.values.reverse.find? fun r' => r'.name == r.name).isSome :=
      List.find?_isSome.mpr ⟨r, hmem, beq_self_eq_true _⟩
    obtain ⟨r', hr'⟩ := Option.isSome_iff_exists.mp hfound
    exact ⟨r'.target, by rw [targetNamed?, hr', Option.map_some]⟩

/-- only one relationship has a name if all are kept under theirs -/
theorem targetNamed?_eq (hnamed : ∀ key r, m.relationships.get? key = some r → r.name = key)
    (k : String) : m.targetNamed? k = (m.relationships.get? k).map (·.target) := by
  cases hk : m.relationships.get? k with
  | none =>
    refine Option.eq_none_iff_forall_ne_some.mpr fun t ht => ?_
    obtain ⟨key, r, hr, hname, -⟩ := exists_of_targetNamed? ht
    rw [← hnamed key r hr, hname, hk] at hr
    cases hr
  | some r =>
    obtain ⟨t, ht⟩ := exists_targetNamed?_iff.mpr ⟨k, r, hk, hnamed k r hk⟩
    obtain ⟨key, r', hr', hname, rfl⟩ := exists_of_targetNamed? ht
    rw [← hnamed key r' hr', hname, hk] at hr'
    cases hr'
    rw [ht, Option.map_some]

/-- the entries of one model in the table -/
theorem lookup_targets (m : Model) (k : String) :
    (m.relationships.values.map fun r => ((m.name, r.name), r.target)).reverse.lookup (m.name, k) =
      m.targetNamed? k := by
  rw [targetNamed?, ← List.map_reverse]
  induction m.relationships.values.reverse with
  | nil => rfl
  | cons r rest ih =>
    have hkey : ((m.name, k) == (m.name, r.name)) = (r.name == k) := by
      rw [Bool.eq_iff_iff, beq_iff_eq, beq_iff_eq, Prod.mk.injEq, eq_self, true_and, eq_comm]
    rw [List.map_cons, List.find?_cons, List.lookup_cons, hkey, ih]
    cases r.name == k <;> rfl

end Model

namespace Schema

/-- a model has no entries under the name of another one -/
theorem lookup_targetsOf_of_notMem {models : List Model} {n : String}
    (hn : n ∉ models.map (·.name)) (k : String) :
    (targetsOf models).reverse.lookup (n, k) = none := by
  refine List.lookup_eq_none_iff.mpr fun e he => ?_
  obtain ⟨m, hm, he⟩ := List.mem_flatMap.mp (List.mem_reverse.mp he)
  obtain ⟨r, -, rfl⟩ := List.mem_map.mp he
  exact bne_iff_ne.mpr fun h => hn ((Prod.mk.inj h).1 ▸ List.mem_map_of_mem hm)

theorem lookup_targetsOf_of_mem {models : List Model} (hnames : (models.map (·.name)).Nodup)
    {m : Model} (hm : m ∈ models) (k : String) :
    (targetsOf models).reverse.lookup (m.name, k) = m.targetNamed? k := by
  induction models with
  | nil => cases hm
  | cons m' rest ih =>
    obtain ⟨hm', hrest⟩ := List.nodup_cons.mp hnames
    rw [targetsOf, List.flatMap_cons, List.reverse_append, List.lookup_append]
    rcases List.mem_cons.mp hm with rfl | hm
    · rw [← targetsOf, lookup_targetsOf_of_notMem hm', Option.none_or, m.lookup_targets]
    · have hne : m.name ∉ [m'].map (·.name) := fun h =>
        hm' (List.mem_singleton.mp h ▸ List.mem_map_of_mem hm)
      have hnone := lookup_targetsOf_of_notMem hne k
      rw [targetsOf, List.flatMap_singleton] at hnone
      rw [← targetsOf, ih hrest hm, hnone, Option.or_none]

/-- where models are kept under their names, the table has what their relationships lead to, in
whatever order the models are gone through -/
theorem lookup_targetsOf {s : Schema} (hnamed : ∀ n m, s.model? n = some m → m.name = n)
    {models : List Model} (hperm : models.Perm s.models.values) (n k : String) :
    (targetsOf models).reverse.lookup (n, k) = (s.model? n).bind (·.targetNamed? k) := by
  have hkeys : s.models.values.map (·.name) = s.models.keys := by
    rw [Dict.values, List.map_map]
    exact List.map_congr_left fun e he => hnamed e.1 e.2 (Dict.mem_entries_iff.mp he)
  have hnames : (models.map (·.name)).Nodup := by
    rw [(hperm.map _).nodup_iff, hkeys]
    exact s.models.nodup_keys
  cases hn : s.model? n with
  | none =>
    refine lookup_targetsOf_of_notMem (fun h => ?_) k
    rw [(hperm.map _).mem_iff, hkeys] at h
    obtain ⟨⟨n, m⟩, he, rfl⟩ := List.mem_map.mp h
    cases hn.symm.trans (Dict.mem_entries_iff.mp he)
  | some m =>
    have hm : m ∈ models :=
      hperm.mem_iff.mpr (List.mem_map_of_mem (f := Prod.snd) (Dict.mem_entries_iff.mpr hn))
    rw [Option.bind_some, ← lookup_targetsOf_of_mem hnames hm, hnamed n m hn]

end Schema

end NestedQuery
