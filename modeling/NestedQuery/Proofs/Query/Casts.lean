import NestedQuery.Proofs.Schema.Levels
import NestedQuery.Proofs.Store.Filtering
import NestedQuery.Proofs.Store.Insertion

/-!
# Casts keep rows of their class

A block that narrows its relationship to a class is joined with the rows of the class, which are
scanned on their own.  This is the same as a filter of the rows of the block without the class: the
class is a variant of the target, and the variants of a variant are listed as those of the target
are.

* `Store.narrowed`             the rows of some rows that are of a class;
* `Store.rows_narrowed`        a scan of a variant is a filter of the scan of the base;
* `Store.joined_narrowed`      and so are the rows that a row is joined with;
* `Term.over`                  what a quantified term says of some rows;
* `Scope.Ranges`               the rows that a block is joined with and that its quantified terms
                               range over;
* `Store.cast_narrows`         the rows of a block with a class are those of the class among the
                               rows of the block without it.
-/

namespace NestedQuery

namespace Store

/-- the rows of a class: those of the model and of its variants -/
def narrowed (st : Store) (c : String) (rows : List StoredRow) : List StoredRow :=
  rows.filter fun row => st.schema.isVariantOf row.model c

section
variable {st : Store} (hs : st.schema.Sound) {c t : String}
  (hc : st.schema.isVariantOf c t = true)
include hs hc

/-- a scan of a variant is a filter of the scan of the base -/
theorem rows_narrowed : st.rows c = st.narrowed c (st.rows t) := by
  obtain ⟨mt, hmt⟩ := hs.exists_base hc
  have ht : st.schema.variantsOf? t = some (st.schema.generations st.schema.models.size [t]) := by
    rw [Schema.variantsOf?, hmt, Option.map_some]
  have hmodel : ∀ n, ∀ row ∈ st.rowsOf n,
      st.schema.isVariantOf row.model c = st.schema.isVariantOf n c := fun n row hrow => by
    rw [(mem_stored hrow).1]
  rw [rows, rows, hs.variantsOf?_filter ht hc, ht]
  exact (filter_flatMap_of_agree fun n _ => hmodel n).symm

/-- so are the rows of a class that a row is joined with -/
theorem joined_narrowed (r : Relationship) (own : StoredRow) :
    st.joined r c own = st.narrowed c (st.joined r t own) := by
  rw [joined, joined, rows_narrowed hs hc, narrowed, narrowed, List.filter_filter,
    List.filter_filter]
  simp only [Bool.and_comm]

end

end Store

/-! ## what a block ranges over -/

/-- what a quantified term says of some rows: a comparison is definitely true of one of them, or
definitely false of none -/
def Term.over (t : Term) (a : Attribute) (v : Value) (rows : List StoredRow) : Bool :=
  match t.selector with
  | .all => rows.all fun row => t.operator.comparison.truth (row.value a.name) v != some false
  | _ => rows.any fun row => t.operator.comparison.truth (row.value a.name) v == some true

/-- under a binding, the join of a block binds some rows in their order, and the quantified terms
of the block speak of the same rows -/
structure Scope.Ranges (st : Store) (cs : Coercions) (scope : Scope) (r : Relationship)
    (bound : Alias) (b : Binding) (rows : List StoredRow) : Prop where
  joined : st.joinOne ⟨bound, scope.bound, r⟩ b =
    .ok (rows.map fun row => (bound.index, row) :: b)
  quantified : ∀ a t p, t.selector ≠ .star → (scope.inner r bound).termPredicate cs a t = .ok p →
    ∃ v, literalValue cs a t.literal = .ok v ∧ p.truth st b none = .ok (some (t.over a v rows))

theorem Scope.ranges_joined {st : Store} {scope : Scope} (bound : Alias) {b : Binding}
    {own : StoredRow} {m : Model} (hown : b.row scope.bound = .ok own)
    (hm : st.schema.model? bound.model = some m) (cs : Coercions) (r : Relationship) :
    scope.Ranges st cs r bound b (st.joined r bound.model own) where
  joined := Store.joinOne_eq bound hown hm r
  quantified a t p hstar hp := by
    obtain ⟨selector, operator, literal⟩ := t
    obtain ⟨v, read, hv, hread, rfl⟩ := termPredicate_eq_ok_iff.mp hp
    refine ⟨v, hv, ?_⟩
    cases hread with
    | star _ => exact absurd rfl hstar
    | any he _ =>
      cases he
      rw [truth_existing, Binding.relatedTo_eq hown hm]
      rfl
    | all he _ =>
      cases he
      rw [Predicate.truth, truth_existing, Binding.relatedTo_eq hown hm]
      exact congrArg (fun x => Except.ok (some x)) (not_any_negate _ v a.name _)

/-! ## blocks with a class -/

/-- a block is planned as its chain and its join, and its members in a scope of its own -/
theorem planMember_relationship {s : Schema} {cs : Coercions} {scope : Scope} {n k : Nat}
    {r r' : Relationship} {model : String} {children : List Member} {ds : List Directive}
    (hr : s.relationshipOf scope.bound.model r.name = .ok r') :
    planMember s cs scope n (.relationship r model children) = .ok (ds, k) ↔
      ∃ inner, planMembers s cs (scope.inner r' ⟨model, n⟩) (n + 1) children = .ok (inner, k) ∧
        ds = .load (scope.inner r' ⟨model, n⟩).chain ::
          .join ⟨⟨model, n⟩, scope.bound, r'⟩ :: inner := by
  rw [planMember, hr, bind_ok, map_eq_ok]
  constructor
  · rintro ⟨⟨inner, k⟩, hinner, he⟩
    cases he
    exact ⟨inner, hinner, rfl⟩
  · rintro ⟨inner, hinner, rfl⟩
    exact ⟨(inner, k), hinner, rfl⟩

/-- a scan of a class is what is of the class in a scan of a model above it, in the same order.
Where a block of a relationship to the model is joined with some rows of it, the block with the
class is joined with those of the class among them, in the same order, and its quantified terms
range over these. -/
theorem Store.cast_narrows {st : Store} (h : st.schema.Built) {c t : String}
    (hc : st.schema.isVariantOf c t = true) :
    (∃ rows, st.scan t = .ok rows ∧ st.scan c = .ok (st.narrowed c rows)) ∧
      ∀ (cs : Coercions) (scope : Scope) (n : Nat) (named r : Relationship),
        st.schema.relationshipOf scope.bound.model named.name = .ok r → r.target = t →
        (∀ model children ds k,
          planMember st.schema cs scope n (.relationship named model children) = .ok (ds, k) ↔
            ∃ inner, planMembers st.schema cs (scope.inner r ⟨model, n⟩) (n + 1) children =
                .ok (inner, k) ∧
              ds = .load (scope.inner r ⟨model, n⟩).chain ::
                .join ⟨⟨model, n⟩, scope.bound, r⟩ :: inner) ∧
        ∀ b own, b.row scope.bound = .ok own →
          ∃ rows, scope.Ranges st cs r ⟨r.target, n⟩ b rows ∧
            scope.Ranges st cs r ⟨c, n⟩ b (st.narrowed c rows) := by
  have hs := h.sound
  obtain ⟨mt, hmt⟩ := hs.exists_base hc
  obtain ⟨mc, hmc, -⟩ := Schema.isVariantOf_iff.mp hc
  refine ⟨⟨st.rows t, scan_eq hmt, ?_⟩, ?_⟩
  · rw [scan_eq hmc, rows_narrowed hs hc]
  · rintro cs scope n named r hr rfl
    refine ⟨fun model children ds k => planMember_relationship hr, fun b own hown => ?_⟩
    have hcast := scope.ranges_joined ⟨c, n⟩ hown hmc cs r
    rw [joined_narrowed hs hc] at hcast
    exact ⟨_, scope.ranges_joined ⟨r.target, n⟩ hown hmt cs r, hcast⟩

/-! ## tubes among vessels -/

namespace Vessels

def shelf : StoredRow := ⟨"Shelf", 0, Dict.ofList [("id", .integer 1)]⟩

/-- a shelf with a frozen tube, a box, a tube and a rack; another tube stands elsewhere -/
def store : Store :=
  (Store.empty schema).run
    [⟨"Shelf", shelf.row⟩, ⟨"CryoTube", Dict.ofList [("shelf", .integer 1)]⟩,
      ⟨"Box", Dict.ofList [("shelf", .integer 1)]⟩, ⟨"Tube", Dict.ofList [("shelf", .integer 1)]⟩,
      ⟨"Rack", Dict.ofList [("shelf", .integer 1)]⟩, ⟨"Tube", Dict.ofList [("shelf", .integer 2)]⟩]

theorem schema_store : store.schema = schema := by cbv

def vessels : Relationship := ⟨"Shelf", "vessels", "Vessel", .many, "id", "shelf"⟩

def shelfBinding : Binding := [(0, shelf)]

theorem cast_narrows_tubes :
    store.schema.Built ∧ store.schema.isVariantOf "Tube" "Vessel" = true ∧
      store.schema.relationshipOf "Shelf" vessels.name = .ok vessels ∧
      vessels.target = "Vessel" ∧ shelfBinding.row (Scope.root "Shelf").bound = .ok shelf ∧
      (∃ rows, store.scan "Vessel" = .ok rows ∧ store.scan "Tube" = .ok (store.narrowed "Tube" rows)) ∧
      ∃ rows, (Scope.root "Shelf").Ranges store .standard vessels ⟨"Vessel", 1⟩ shelfBinding rows ∧
        (Scope.root "Shelf").Ranges store .standard vessels ⟨"Tube", 1⟩ shelfBinding
          (store.narrowed "Tube" rows) := by
  have hbuilt : store.schema.Built := schema_store ▸ built
  have hc : store.schema.isVariantOf "Tube" "Vessel" = true := by cbv
  have hr : store.schema.relationshipOf "Shelf" vessels.name = .ok vessels := by cbv
  have hown : shelfBinding.row (Scope.root "Shelf").bound = .ok shelf := rfl
  obtain ⟨hscan, hblocks⟩ := Store.cast_narrows hbuilt hc
  obtain ⟨-, hranges⟩ := hblocks .standard (.root "Shelf") 1 vessels vessels hr rfl
  exact ⟨hbuilt, hc, hr, rfl, hown, hscan, hranges shelfBinding shelf hown⟩

/-- of the four vessels on the shelf two are tubes -/
example : ((store.joined vessels "Vessel" shelf).map (·.model),
      (store.joined vessels "Tube" shelf).map (·.model)) =
    (["Box", "Tube", "Rack", "CryoTube"], ["Tube", "CryoTube"]) := by cbv

end Vessels

end NestedQuery
