import NestedQuery.Database
import NestedQuery.Proofs.Query.Answers

/-!
# Rows with keys of one text

Rows of a model are one object when the texts of their keys are equal, and the text of a key does
not tell where one part ends and the next one begins.  The query for all rows of a model has one
root for every row just when no two keys have one text, which is more than that no two keys are
equal.

* `Store.KeyTextsDiffer`         no two rows of a model have keys of one text;
* `Store.roots_eq_count_iff`     this is what it takes for all rows to be roots;
* `Store.KeysDiffer`             no two rows of a model have one key;
* `Pairs.merged`                 different keys of one text, where a row is missing.
-/

namespace NestedQuery

/-! ## rows of one object -/

theorem Schema.identity_eq_of_keyText {s : Schema} {r r' : StoredRow} {m : Model} {key : String}
    (hm : s.model? r.model = some m) (hmodel : r'.model = r.model)
    (hr : keyText? (Store.keyOf m r.row) = some key)
    (hr' : keyText? (Store.keyOf m r'.row) = some key) : s.identity r = s.identity r' := by
  rw [identity_eq hm, identity_eq (hmodel ▸ hm), RowIdentity.of, RowIdentity.of, hr, hr', hmodel]

namespace Store
variable {st : Store}

/-- no two of a model's rows have keys of one text; rows without a full key do not count -/
def KeyTextsDiffer (st : Store) (model : String) : Prop :=
  ∀ r ∈ st.rows model, ∀ r' ∈ st.rows model, ∀ m key, st.schema.model? r.model = some m →
    r'.model = r.model → keyText? (keyOf m r.row) = some key →
    keyText? (keyOf m r'.row) = some key → r = r'

/-- scanned rows have identities of their own if the texts of their keys differ -/
theorem keyTextsDiffer_iff (hs : st.schema.Sound) {model : String} :
    st.KeyTextsDiffer model ↔ ∀ r ∈ st.rows model, ∀ r' ∈ st.rows model,
      st.schema.identity r = st.schema.identity r' → r = r' := by
  constructor
  · intro h r hr r' hr' hi
    obtain ⟨m, hm⟩ := model?_of_mem_rows hs hr
    have hmodel := (Schema.model_eq_of_identity_eq hi).symm
    rw [Schema.identity_eq hm, Schema.identity_eq (hmodel ▸ hm), RowIdentity.of, RowIdentity.of]
      at hi
    cases hkey : keyText? (keyOf m r.row) with
    | none =>
      -- without a full key the identity is the place, which no other row of the model has
      rw [hkey] at hi
      cases hkey' : keyText? (keyOf m r'.row) with
      | none =>
        rw [hkey'] at hi
        exact eq_of_mem_rows hr hr' hmodel.symm (RowIdentity.placed.inj hi).2
      | some key =>
        rw [hkey'] at hi
        cases hi
    | some key =>
      rw [hkey] at hi
      cases hkey' : keyText? (keyOf m r'.row) with
      | none =>
        rw [hkey'] at hi
        cases hi
      | some key' =>
        rw [hkey'] at hi
        rw [← (RowIdentity.keyed.inj hi).2] at hkey'
        exact h r hr r' hr' m key hm hmodel hkey hkey'
  · intro h r hr r' hr' m key hm hmodel hkey hkey'
    exact h r hr r' hr' (Schema.identity_eq_of_keyText hm hmodel hkey hkey')

end Store

/-! ## all rows of a model -/

/-- the tokens of the query for all rows of a model, without any blocks -/
def allRowsTokens (model : String) : TokenStream :=
  [.ok ⟨1, .rootOpen model⟩, .ok ⟨2, .close⟩]

theorem Query.ofTokens_allRows {s : Schema} {model : String} {m : Model}
    (hm : s.model? model = some m) : ofTokens s (allRowsTokens model) = .ok ⟨model, []⟩ := by
  have hbody : Parse.body s model [.ok ⟨2, .close⟩] = .ok ([], ⟨[], Nat.lt_succ_self _⟩) := by
    rw [Parse.body]
  show (s.modelNamed model).bind _ = _
  rw [Schema.modelNamed_of_some hm, bind_ok, hbody]
  rfl

theorem Plan.ofQuery_allRows {s : Schema} {model : String} {m : Model}
    (hm : s.model? model = some m) (c : Coercions) :
    ofQuery s c ⟨model, []⟩ = .ok ⟨model, ⟨model, 0⟩, []⟩ := by
  rw [ofQuery, Schema.modelNamed_of_some hm, bind_ok]
  rfl

theorem Query.keptRoots_allRows (st : Store) (model : String) :
    Query.keptRoots st ⟨model, ⟨model, 0⟩, []⟩ ⟨model, []⟩ = st.rows model :=
  List.filter_eq_self.mpr fun _ _ => rfl

/-- a query for all rows of a model has a root for each of them if the texts of their keys
differ, and fewer roots otherwise -/
theorem Store.roots_eq_count_iff {st : Store} (hs : st.schema.Built) {model : String} {m : Model}
    (hm : st.schema.model? model = some m) (c : Coercions) :
    ∃ (q : Query) (p : Plan) (g : Graph) (n : Nat),
      Query.ofTokens st.schema (allRowsTokens model) = .ok q ∧
      Plan.ofQuery st.schema c q = .ok p ∧ st.submit p = .ok g ∧ st.count model = .ok n ∧
      g.roots.length ≤ n ∧ (g.roots.length = n ↔ st.KeyTextsDiffer model) := by
  have hq := Query.ofTokens_allRows hm
  have hp := Plan.ofQuery_allRows hm c
  have hr := Query.resolved_of_ofTokens hs.sound hq
  obtain ⟨g, slot, hsubmit, hg, hroots⟩ := Query.exists_roots hs.sound hr hp
  have hbinds : ∀ r ∈ st.rows model, Query.Binds st c ⟨model, []⟩ r := fun r hr =>
    ⟨.node r [], ⟨hr, .nil _⟩, List.mem_cons_self⟩
  rw [Query.keptRoots_allRows] at hroots
  refine ⟨_, _, g, _, hq, hp, hsubmit, by rw [Store.count, Store.scan_eq hm, map_ok], ?_, ?_⟩
  · rw [hroots]
    exact Nat.le_trans (length_eraseDups_le _) (Nat.le_of_eq (List.length_map _))
  · have hlength : (st.rows model).length = ((st.rows model).map slot).length :=
      (List.length_map _).symm
    rw [hroots, hlength, length_eraseDups_eq_iff,
      List.nodup_map_iff_inj_on (Store.nodup_rows hs.sound model),
      Store.keyTextsDiffer_iff hs.sound]
    refine forall₂_congr fun r hr => forall₂_congr fun r' hr' => ?_
    rw [hg.slot_eq_iff r r' (hbinds r hr) (hbinds r' hr')]

/-! ## keys of one text -/

/-- no two of a model's rows have one key; rows without a full key do not count -/
def Store.KeysDiffer (st : Store) (model : String) : Prop :=
  ∀ r ∈ st.rows model, ∀ r' ∈ st.rows model, ∀ m, st.schema.model? r.model = some m →
    r'.model = r.model → (keyText? (keyOf m r.row)).isSome → keyOf m r.row = keyOf m r'.row →
    r = r'

namespace Pairs

/-- pairs of strings, known by both of them -/
def declaration : Declaration :=
  ((((Declaration.named "Pair").addAttribute "left" .string).addAttribute
    "right" .string).addKeyColumn "left").addKeyColumn "right"

def schema : Schema := (Schema.ofDeclarations [declaration]).toOption.getD .empty

theorem ofDeclarations_eq : Schema.ofDeclarations [declaration] = .ok schema := by cbv

theorem built : schema.Built := by
  refine ⟨[declaration], fun d hd => ?_, ofDeclarations_eq⟩
  cases List.mem_singleton.mp hd
  exact .addKeyColumn _ (.addKeyColumn _ (.addAttribute _ _ (.addAttribute _ _ (.named _))))

def pair (left right : String) : String × Row :=
  ("Pair", Dict.ofList [("left", .string left), ("right", .string right)])

/-- two pairs whose strings meet at another point -/
def store : Store :=
  ((Store.empty schema).insertAll [pair "a.b" "c", pair "a" "b.c"]).toOption.getD (.empty schema)

theorem insertAll_eq :
    (Store.empty schema).insertAll [pair "a.b" "c", pair "a" "b.c"] = .ok store := by cbv

theorem schema_store : store.schema = schema := by cbv

theorem entries_eq : store.tables.entries =
    [("Pair", [(pair "a.b" "c").2, (pair "a" "b.c").2])] := by cbv

theorem primaryKey_eq : (store.schema.model? "Pair").map (·.primaryKey) =
    some ["left", "right"] := by cbv

/-- there are no other rows -/
theorem mem_rows {model : String} {r : StoredRow} (h : r ∈ store.rows model) :
    r = ⟨"Pair", 0, (pair "a.b" "c").2⟩ ∨ r = ⟨"Pair", 1, (pair "a" "b.c").2⟩ := by
  obtain ⟨name, -, hr⟩ := List.mem_flatMap.mp h
  have htable : store.table name = (Dict.lookIn name store.tables.entries).getD [] := rfl
  rw [Store.rowsOf, htable, entries_eq, Dict.lookIn_cons] at hr
  by_cases hname : name = "Pair"
  · subst hname
    rw [if_pos rfl] at hr
    rcases List.mem_cons.mp hr with hr | hr
    · exact Or.inl hr
    · exact Or.inr (List.mem_singleton.mp hr)
  · rw [if_neg hname] at hr
    cases hr

theorem keysDiffer (model : String) : store.KeysDiffer model := by
  intro r hr r' hr' m hm hmodel hfull hkey
  have hpk : m.primaryKey = ["left", "right"] := by
    have hname : r.model = "Pair" := by
      rcases mem_rows hr with rfl | rfl <;> rfl
    have hpk := primaryKey_eq
    rw [← hname, hm] at hpk
    exact Option.some.inj hpk
  rw [Store.keyOf, Store.keyOf, hpk] at hkey
  have hleft : Row.value r.row "left" = Row.value r'.row "left" := (List.cons.inj hkey).1
  have hfirst : Row.value (pair "a.b" "c").2 "left" = .string "a.b" := by cbv
  have hsecond : Row.value (pair "a" "b.c").2 "left" = .string "a" := by cbv
  have hne : ("a.b" : String) ≠ "a" := by decide
  rcases mem_rows hr with rfl | rfl <;> rcases mem_rows hr' with rfl | rfl
  · rfl
  · rw [hfirst, hsecond] at hleft
    exact absurd (Value.string.inj hleft) hne
  · rw [hfirst, hsecond] at hleft
    exact absurd (Value.string.inj hleft).symm hne
  · rfl

def text : String := "query Pair \x7b\n\x7d"

/-- the keys of the two pairs differ, and still they are one root -/
theorem merged :
    schema.Built ∧
      (Store.empty schema).insertAll [pair "a.b" "c", pair "a" "b.c"] = .ok store ∧
      (∀ model, store.KeysDiffer model) ∧ store.count "Pair" = .ok 2 ∧
      ∃ g, (Database.mk store .standard).graph text = .ok g ∧ g.roots.length = 1 := by
  refine ⟨built, insertAll_eq, keysDiffer, by cbv,
    ((Database.mk store .standard).graph text).toOption.getD .empty, by cbv, by cbv⟩

/-- the two pairs have keys of one text, so that there are fewer roots than rows -/
theorem roots_eq_count_iff_pairs :
    store.schema.Built ∧ (∃ m, store.schema.model? "Pair" = some m) ∧
      ∃ (q : Query) (p : Plan) (g : Graph) (n : Nat),
        Query.ofTokens store.schema (allRowsTokens "Pair") = .ok q ∧
        Plan.ofQuery store.schema .standard q = .ok p ∧ store.submit p = .ok g ∧
        store.count "Pair" = .ok n ∧ g.roots.length ≤ n ∧
        (g.roots.length = n ↔ store.KeyTextsDiffer "Pair") := by
  have hs : store.schema.Built := schema_store ▸ built
  obtain ⟨m, hm, -⟩ := Option.map_eq_some_iff.mp primaryKey_eq
  exact ⟨hs, ⟨m, hm⟩, Store.roots_eq_count_iff hs hm .standard⟩

end Pairs

end NestedQuery
