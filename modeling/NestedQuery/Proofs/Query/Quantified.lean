import NestedQuery.Proofs.Graph.Population

/-!
# What `all` says of the related rows

A term `all op v` is planned as the absence of a related row for the negated comparison.  A row
whose comparison is unknown, such as one with a null, has an unknown negated comparison too, so
that it does not stand against the term.

* `Scope.truth_all`          the planned predicate is true when no related row compares
                             definitely false;
* `Scope.truth_all_iff`      it says that every related row compares definitely true exactly when
                             no comparison is unknown or some is false.
-/

namespace NestedQuery

section
variable {st : Store} {c : Coercions} {b : Binding} {scope : Scope} {r : Relationship}
  {bound : Alias} {own : StoredRow} {a : Attribute} {op : Operator} {literal : Literal}
  {p : Predicate}

/-- the truth of a comparison for a row that a block might be joined with -/
def comparedTo (a : Attribute) (op : Operator) (v : Value) (row : StoredRow) : Truth :=
  op.comparison.truth (row.value a.name) v

/-- a related row stands against `all` if its comparison is definitely false -/
theorem Scope.truth_all {m : Model} (hm : st.schema.model? bound.model = some m)
    (hrow : b.row scope.bound = .ok own)
    (hp : (scope.inner r bound).termPredicate c a ⟨.all, op, literal⟩ = .ok p) :
    ∃ v, literalValue c a literal = .ok v ∧ (p.truth st b none = .ok (some true) ↔
      ∀ row ∈ st.joined r bound.model own, comparedTo a op v row ≠ some false) := by
  obtain ⟨v, read, hv, hread, rfl⟩ := termPredicate_eq_ok_iff.mp hp
  refine ⟨v, hv, ?_⟩
  cases hread with
  | all he _ =>
    -- the relationship is joined with the model of the block, from the row around it
    cases he
    rw [Predicate.truth, truth_existing, Binding.relatedTo_eq hrow hm, map_ok, map_ok,
      Except.ok.injEq, Truth.not, Option.map_some, Option.some.injEq]
    rw [not_any_negate, List.all_eq_true]
    exact forall₂_congr fun row _ => bne_iff_ne

/-- that no comparison is false means that all are true exactly when none is unknown, or some is
false after all -/
theorem forall_true_iff {α : Type} {rows : List α} {f : α → Truth} :
    ((∀ row ∈ rows, f row ≠ some false) ↔ ∀ row ∈ rows, f row = some true) ↔
      (∀ row ∈ rows, f row ≠ none) ∨ ∃ row ∈ rows, f row = some false := by
  constructor
  · intro h
    by_cases hfalse : ∃ row ∈ rows, f row = some false
    · exact .inr hfalse
    · have htrue := h.mp fun row hrow he => hfalse ⟨row, hrow, he⟩
      exact .inl fun row hrow => by rw [htrue row hrow]; exact Option.some_ne_none _
  · rintro (hknown | ⟨row, hrow, hfalse⟩)
    · refine forall₂_congr fun row hrow => ?_
      have hne := hknown row hrow
      rcases hrow' : f row with _ | _ | _
      · exact absurd hrow' hne
      · decide
      · decide
    · refine iff_of_false (fun h => h row hrow hfalse) fun h => ?_
      rw [h row hrow] at hfalse
      cases hfalse

/-- what is planned for `all` in a block is true of a row if no related row compares definitely
false.  This is the same as that every related row compares definitely true exactly when no
comparison is unknown or some comparison is definitely false. -/
theorem Scope.truth_all_iff (hb : st.schema.isVariantOf bound.model r.target = true)
    (ha : st.schema.attribute? bound.model a.name = some a)
    (hrow : b.row scope.bound = .ok own)
    (hp : filterDirectives st.schema c (scope.inner r bound) a
      (some (.term ⟨.all, op, literal⟩)) = .ok [.filter p]) :
    ∃ v, literalValue c a literal = .ok v ∧
      (p.truth st b none = .ok (some true) ↔
        ∀ row ∈ st.joined r bound.model own, comparedTo a op v row ≠ some false) ∧
      ((p.truth st b none = .ok (some true) ↔
          ∀ row ∈ st.joined r bound.model own, comparedTo a op v row = some true) ↔
        (∀ row ∈ st.joined r bound.model own, comparedTo a op v row ≠ none) ∨
          ∃ row ∈ st.joined r bound.model own, comparedTo a op v row = some false) := by
  obtain ⟨m, hm, -⟩ := Schema.isVariantOf_iff.mp hb
  obtain ⟨a', ha', hp⟩ := bind_eq_ok.mp hp
  cases (Schema.attributeOf_ok_iff.mp ha').symm.trans ha
  obtain ⟨p', hp, he⟩ := map_eq_ok.mp hp
  cases he
  obtain ⟨v, hv, htruth⟩ := truth_all hm hrow hp
  exact ⟨v, hv, htruth, by rw [htruth]; exact forall_true_iff⟩

end

/-! ## a tube without a type -/

namespace Samples

/-- a sample with one tube, the type of which is not known -/
def store : Store :=
  ((Store.empty schema).insertAll
    [("Sample", Dict.ofList [("id", .integer 1)]),
      ("Tube", Dict.ofList [("id", .integer 1), ("sample", .integer 1), ("type", .null)])]
    ).toOption.getD (.empty schema)

def sample : StoredRow := ⟨"Sample", 0, Dict.ofList [("id", .integer 1)]⟩

def type : Attribute := ⟨"Tube", "type", .string⟩

def sampleScope : Scope := .root "Sample"

def sampleBinding : Binding := [(0, sample)]

/-- no tube has another type than `a` -/
def allOfTypeA : Predicate :=
  .not (Scope.existing sampleScope.bound { tubes with target := "Tube" } type .ne (.string "a"))

theorem filterDirectives_eq :
    filterDirectives store.schema .standard (sampleScope.inner tubes ⟨"Tube", 1⟩) type
      (some (.term ⟨.all, .eq, .string "a"⟩)) = .ok [.filter allOfTypeA] := by cbv

theorem row_sampleBinding : sampleBinding.row sampleScope.bound = .ok sample := rfl

/-- the predicate for `all == "a"` is true of the sample, and not all of its tubes are of the
type `a` -/
theorem all_of_unknown :
    filterDirectives store.schema .standard (sampleScope.inner tubes ⟨"Tube", 1⟩) type
        (some (.term ⟨.all, .eq, .string "a"⟩)) = .ok [.filter allOfTypeA] ∧
      sample ∈ store.rows "Sample" ∧ sampleBinding.row sampleScope.bound = .ok sample ∧
      allOfTypeA.truth store sampleBinding none = .ok (some true) ∧
      ¬ ∀ row ∈ store.joined tubes "Tube" sample,
        comparedTo type .eq (.string "a") row = some true := by
  have hrows : store.rows "Sample" = [sample] := by cbv
  have htubes : ∃ tube, store.joined tubes "Tube" sample = [tube] ∧
      comparedTo type .eq (.string "a") tube = none := ⟨_, by cbv, by cbv⟩
  refine ⟨filterDirectives_eq, hrows ▸ List.mem_singleton_self _, row_sampleBinding, by cbv, ?_⟩
  obtain ⟨tube, htube, hnone⟩ := htubes
  intro h
  have := h tube (htube ▸ List.mem_singleton_self tube)
  rw [hnone] at this
  cases this

theorem truth_all_iff_samples :
    store.schema.isVariantOf "Tube" tubes.target = true ∧
      store.schema.attribute? "Tube" type.name = some type ∧
      sampleBinding.row sampleScope.bound = .ok sample ∧
      filterDirectives store.schema .standard (sampleScope.inner tubes ⟨"Tube", 1⟩) type
        (some (.term ⟨.all, .eq, .string "a"⟩)) = .ok [.filter allOfTypeA] ∧
      ∃ v, literalValue .standard type (.string "a") = .ok v ∧
        (allOfTypeA.truth store sampleBinding none = .ok (some true) ↔
          ∀ row ∈ store.joined tubes "Tube" sample, comparedTo type .eq v row ≠ some false) ∧
        ((allOfTypeA.truth store sampleBinding none = .ok (some true) ↔
            ∀ row ∈ store.joined tubes "Tube" sample, comparedTo type .eq v row = some true) ↔
          (∀ row ∈ store.joined tubes "Tube" sample, comparedTo type .eq v row ≠ none) ∨
            ∃ row ∈ store.joined tubes "Tube" sample, comparedTo type .eq v row = some false) := by
  have hb : store.schema.isVariantOf "Tube" tubes.target = true := by cbv
  have ha : store.schema.attribute? "Tube" type.name = some type := by cbv
  exact ⟨hb, ha, row_sampleBinding, filterDirectives_eq,
    Scope.truth_all_iff hb ha row_sampleBinding filterDirectives_eq⟩

end Samples

end NestedQuery
