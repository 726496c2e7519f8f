import Mathlib
import NestedQuery.Proofs.Graph.Links

/-!
# The objects that a query loads

The graph of a query has an object for every row that some matching rows contain, and its
relationships hold what the links between matching rows lead to.

* `Query.Binds`, `Query.Links` rows and links of some matching rows;
* `Query.submit_records`       what the loading of a query records;
* `Query.Populates`            a graph with just the objects and relationships of matching rows;
* `Query.submit_populates`     the graph of a query is one.
-/

namespace NestedQuery

/-! ## the graph of a query -/

/-- a row that some matching rows contain -/
def Query.Binds (st : Store) (c : Coercions) (q : Query) (row : StoredRow) : Prop :=
  ∃ t, q.Matches st c t ∧ row ∈ t.rows

/-- a link of some matching rows -/
def Query.Links (st : Store) (c : Coercions) (q : Query) (k : Link) : Prop :=
  ∃ t, q.Matches st c t ∧ q.Linked t k

theorem Query.Matches.binds_row {st : Store} {c : Coercions} {q : Query} {t : RowTree}
    (h : q.Matches st c t) : q.Binds st c t.row := by
  refine ⟨t, h, ?_⟩
  cases t
  exact List.mem_cons_self

theorem Query.Links.binds {st : Store} {c : Coercions} {q : Query} {k : Link}
    (h : q.Links st c k) : q.Binds st c k.parent ∧ q.Binds st c k.child := by
  obtain ⟨t, ht, hk⟩ := h
  have hmem := hk.mem_rowsAll
  cases t with
  | node row inner => exact ⟨⟨_, ht, hmem.1⟩, ⟨_, ht, List.mem_cons_of_mem _ hmem.2⟩⟩

section
variable {st : Store} {c : Coercions} {q : Query} {p : Plan} (hs : st.schema.Sound)
  (hq : q.Resolved st.schema)

include hq in
theorem Query.mem_rows_iff {t : RowTree} (ht : t ∈ q.trees st) {row : StoredRow} :
    row ∈ t.rows ↔ row = t.row ∨ ∃ k, q.Linked t k ∧ k.child = row := by
  have hinner := (Query.mem_trees_iff.mp ht).2
  cases t with
  | node own inner =>
    exact List.mem_cons.trans (or_congr_right (mem_rowsAll_iff hq.members hinner))

variable (hp : Plan.ofQuery st.schema c q = .ok p)

include hq hp in
theorem Query.linked_iff {t : RowTree} (ht : t ∈ q.trees st) {k : Link} :
    q.Linked t k ↔ t.binding.Joins p.joins k := by
  obtain ⟨ds, n, rfl, hds, -, hinner, hrow, hrows⟩ := Query.planned_tree hq hp ht
  exact hds.linked_iff hrow hinner hrows

include hs hq hp

/-- joined rows are loaded along their links -/
theorem Query.loads_binding {t : RowTree} (ht : t ∈ q.trees st) :
    t.binding.Loads st.schema p t.row ∧
      ∀ k, k ∈ t.binding.allLinks p t.row ↔ q.Linked t k := by
  obtain ⟨ds, k, rfl, hds, hroot, hinner, hrow, hrows⟩ := Query.planned_tree hq hp ht
  have hvariant := Store.isVariantOf_of_mem_rows hs hroot
  obtain ⟨h₁, h₂⟩ := hds.follows hs hvariant hinner hrows (.nil t.row)
  refine ⟨⟨hrow, Store.model?_of_mem_rows hs hroot, fun chain hchain => (h₁ chain hchain).1⟩,
    fun x => ⟨fun hx => ?_, fun hx => ?_⟩⟩
  · obtain ⟨chain, hchain, hx⟩ := List.mem_flatMap.mp hx
    exact ((h₁ chain hchain).2 x hx).resolve_left List.not_mem_nil
  · obtain ⟨chain, hchain, hx⟩ := h₂ x hx
    exact List.mem_flatMap.mpr ⟨chain, hchain, hx⟩

omit hs in
theorem Query.mem_roots_iff (row : StoredRow) :
    row ∈ (q.kept st p).map RowTree.row ↔ ∃ t, q.Matches st c t ∧ t.row = row := by
  rw [List.mem_map]
  simp only [Query.mem_kept_iff hq hp]

/-- a plan is carried out, and records the rows and links of all matching rows -/
theorem Query.submit_records : ∃ l rows links, st.submit p = .ok (Loading.graph l) ∧
    l.Records st.schema rows ((q.kept st p).map RowTree.row) links ∧
    (∀ row, row ∈ rows ↔ q.Binds st c row) ∧ (∀ k, k ∈ links ↔ q.Links st c k) := by
  have htrees : ∀ t ∈ q.kept st p, t ∈ q.trees st := fun t ht => List.mem_of_mem_filter ht
  obtain ⟨l, hl, hrecords⟩ := (Loading.records_empty st.schema).addBindings
    fun t ht => (Query.loads_binding hs hq hp (htrees t ht)).1
  refine ⟨l, _, _, ?_, hrecords, fun row => ?_, fun k => ?_⟩
  · obtain ⟨m, hm⟩ := hq.root
    obtain ⟨ds, k, hpeq, hds⟩ := planned_of_ofQuery hq hp
    have hjoins : Store.checkJoins st.schema (joinsOf ds ++ []) = .ok () := hds.checkJoins rfl
    rw [List.append_nil] at hjoins
    have hroot : p.model = q.model := by rw [hpeq]
    have hjoinsOf : p.joins = joinsOf ds := by rw [hpeq]; rfl
    rw [Store.submit, hroot, Schema.modelNamed_of_some hm, bind_ok, hjoinsOf, hjoins, bind_ok,
      Store.bindings_eq hq hp, bind_ok, hl, map_ok]
  · rw [List.nil_append, List.mem_flatMap]
    refine exists_congr fun t => ?_
    rw [Query.mem_kept_iff hq hp]
    refine and_congr_right fun ht => ?_
    rw [List.mem_cons, List.mem_map, Query.mem_rows_iff hq ht.mem_trees]
    simp only [(Query.loads_binding hs hq hp ht.mem_trees).2]
  · rw [List.nil_append, List.mem_flatMap]
    refine exists_congr fun t => ?_
    rw [Query.mem_kept_iff hq hp]
    exact and_congr_right fun ht => (Query.loads_binding hs hq hp ht.mem_trees).2 k

end

/-- a graph with just the objects and the relationships of matching rows, where `slot` tells the
object of a row -/
structure Query.Populates (st : Store) (c : Coercions) (q : Query) (slot : StoredRow → Nat)
    (g : Graph) : Prop where
  /-- two rows are one object if they have one identity -/
  slot_eq_iff : ∀ r r', q.Binds st c r → q.Binds st c r' →
    (slot r = slot r' ↔ st.schema.identity r = st.schema.identity r')
  /-- the objects are those of the rows that are bound -/
  occupied : ∀ n, (∃ o, g.object? n = some o) ↔ ∃ r, q.Binds st c r ∧ slot r = n
  /-- the roots are the objects of the roots that match -/
  roots : ∀ n, n ∈ g.roots ↔ ∃ t, q.Matches st c t ∧ slot t.row = n
  /-- an object is that of a row, and its relationships lead along the links of its rows -/
  objects : ∀ n o, g.object? n = some o → ∃ r m, q.Binds st c r ∧ slot r = n ∧
    st.schema.model? r.model = some m ∧ o.Loaded m r fun name i =>
      ∃ k, q.Links st c k ∧ slot k.parent = n ∧ k.name = name ∧ slot k.child = i
  /-- a relationship is loaded where a block of its name stands inside of one with a row of the
  object -/
  isLoaded_iff : ∀ r o name, q.Binds st c r → g.object? (slot r) = some o →
    (o.isLoaded name = true ↔ ∃ k, q.Links st c k ∧ slot k.parent = slot r ∧ k.name = name)

theorem Loading.Records.populates {st : Store} {c : Coercions} {q : Query} {l : Loading}
    {rows roots : List StoredRow} {links : List Link}
    (h : l.Records st.schema rows roots links) (hrows : ∀ row, row ∈ rows ↔ q.Binds st c row)
    (hroots : ∀ row, row ∈ roots ↔ ∃ t, q.Matches st c t ∧ t.row = row)
    (hlinks : ∀ k, k ∈ links ↔ q.Links st c k) :
    q.Populates st c (l.slot st.schema) l.graph := by
  have hobjects : ∀ n o, l.graph.object? n = some o → ∃ r m, q.Binds st c r ∧
      l.slot st.schema r = n ∧ st.schema.model? r.model = some m ∧ o.Loaded m r fun name i =>
        ∃ k, q.Links st c k ∧ l.slot st.schema k.parent = n ∧ k.name = name ∧
          l.slot st.schema k.child = i := by
    intro n o ho
    rw [Loading.object?_graph] at ho
    obtain ⟨e, he, rfl⟩ := Option.map_eq_some_iff.mp ho
    obtain ⟨r, hr, m, hm, hi, hloaded⟩ := h.objects e (List.mem_of_getElem? he)
    refine ⟨r, m, (hrows r).mp hr, (Loading.slot_eq_iff h.nodup he).mpr hi, hm, ?_⟩
    have htargets : l.Targets st.schema links e.1 = fun name i =>
        ∃ k, q.Links st c k ∧ l.slot st.schema k.parent = n ∧ k.name = name ∧
          l.slot st.schema k.child = i := by
      funext name i
      refine propext (exists_congr fun k => ?_)
      rw [hlinks, Loading.slot_eq_iff h.nodup he]
    rw [← htargets]
    exact hloaded
  refine ⟨fun r r' hr _ => h.slot_eq_slot_iff ((hrows r).mpr hr), fun n => ⟨?_, ?_⟩, fun n => ?_,
    hobjects, fun r o name _ ho => ?_⟩
  · rintro ⟨o, ho⟩
    obtain ⟨r, m, hr, hslot, -⟩ := hobjects n o ho
    exact ⟨r, hr, hslot⟩
  · rintro ⟨r, hr, rfl⟩
    exact h.exists_object ((hrows r).mpr hr)
  · show n ∈ l.roots ↔ _
    rw [h.roots_eq, List.mem_eraseDups, List.mem_map]
    constructor
    · rintro ⟨row, hrow, rfl⟩
      obtain ⟨t, ht, rfl⟩ := (hroots row).mp hrow
      exact ⟨t, ht, rfl⟩
    · rintro ⟨t, ht, rfl⟩
      exact ⟨t.row, (hroots _).mpr ⟨t, ht, rfl⟩, rfl⟩
  · obtain ⟨x, m, hx, hslot, hm, hloaded⟩ := hobjects _ o ho
    rw [hloaded.isLoaded_iff]
    · constructor
      · rintro ⟨n, k, hk, hp, hn, -⟩
        exact ⟨k, hk, hp, hn⟩
      · rintro ⟨k, hk, hp, hn⟩
        exact ⟨_, k, hk, hp, hn, rfl⟩
    · rintro n ⟨k, hk, hp, rfl, -⟩
      have hmem := (hlinks k).mpr hk
      obtain ⟨rel, hrel⟩ := h.declared k hmem
      have hmodel : k.parent.model = x.model := Schema.model_eq_of_identity_eq
        ((h.slot_eq_slot_iff (h.linked k hmem).1).mp (hp.trans hslot.symm))
      rw [hmodel, Schema.relationship?, hm] at hrel
      exact ⟨rel, hrel⟩

/-- a plan is carried out, and its graph has just the objects and the relationships of matching
rows -/
theorem Query.exists_populates {st : Store} {c : Coercions} {q : Query} {p : Plan}
    (hs : st.schema.Sound) (hq : q.Resolved st.schema)
    (hp : Plan.ofQuery st.schema c q = .ok p) :
    ∃ g slot, st.submit p = .ok g ∧ q.Populates st c slot g := by
  obtain ⟨l, rows, links, hsubmit, hrecords, hrows, hlinks⟩ := Query.submit_records hs hq hp
  exact ⟨l.graph, l.slot st.schema, hsubmit,
    hrecords.populates hrows (Query.mem_roots_iff hq hp) hlinks⟩

/-- the graph of a plan has just the objects and the relationships of the rows that its bindings
keep, which are linked where the aliases of a join are -/
theorem Query.submit_populates {st : Store} {c : Coercions} {ts : TokenStream} {q : Query}
    {p : Plan} (hs : st.schema.Built) (hq : Query.ofTokens st.schema ts = .ok q)
    (hp : Plan.ofQuery st.schema c q = .ok p) :
    ∃ (g : Graph) (slot : StoredRow → Nat) (trees : List RowTree), st.submit p = .ok g ∧
      st.bindings p = .ok (trees.map RowTree.binding) ∧
      (∀ t, t ∈ trees ↔ q.Matches st c t) ∧
      (∀ t ∈ trees, ∀ k, q.Linked t k ↔ t.binding.Joins p.joins k) ∧
      q.Populates st c slot g := by
  have hr := Query.resolved_of_ofTokens hs.sound hq
  obtain ⟨g, slot, hsubmit, hg⟩ := Query.exists_populates hs.sound hr hp
  refine ⟨g, slot, q.kept st p, hsubmit, Store.bindings_eq hr hp, fun t =>
    Query.mem_kept_iff hr hp, fun t ht k => ?_, hg⟩
  exact Query.linked_iff hr hp (List.mem_of_mem_filter ht)

/-! ## a ring -/

/-- a store with some more rows -/
def Store.insertAll (st : Store) : List (String × Row) → Except Error Store
  | [] => .ok st
  | (model, row) :: rest => (st.insert model row).bind fun (st, _) => st.insertAll rest

namespace Ring

/-- steps, each of which names the one after it -/
def declaration : Declaration :=
  ((((Declaration.named "Step").addAttribute "id" .string).addKeyColumn "id").addAttribute
    "after" .string).addRelationship "next" "Step" .one "after" "id"
    |>.addRelationship "earlier" "Step" .many "id" "after"

def schema : Schema := (Schema.ofDeclarations [declaration]).toOption.getD .empty

theorem ofDeclarations_eq : Schema.ofDeclarations [declaration] = .ok schema := by cbv

theorem built : schema.Built := by
  refine ⟨[declaration], fun d hd => ?_, ofDeclarations_eq⟩
  cases List.mem_singleton.mp hd
  exact .addRelationship _ _ _ _ _ (.addRelationship _ _ _ _ _
    (.addAttribute _ _ (.addKeyColumn _ (.addAttribute _ _ (.named _)))))

def step (id after : String) : String × Row :=
  ("Step", Dict.ofList [("id", .string id), ("after", .string after)])

/-- three steps in a circle -/
def store : Store :=
  ((Store.empty schema).insertAll [step "a" "b", step "b" "c", step "c" "a"]).toOption.getD
    (.empty schema)

theorem schema_store : store.schema = schema := by cbv

theorem built_store : store.schema.Built := schema_store ▸ built

/-- a step, the one after it and those before that one, if one of these is `a` -/
def text : String :=
  "query Step \x7b\n next \x7b\n earlier \x7b\n id [any == \"a\"]\n \x7d\n \x7d\n \x7d"

def query : Query := (Query.ofText schema text).toOption.getD ⟨"", []⟩

def plan : Plan := (Plan.ofQuery schema .standard query).toOption.getD ⟨"", ⟨"", 0⟩, []⟩

theorem ofTokens_eq : Query.ofTokens store.schema (tokenize text) = .ok query := by cbv

theorem ofQuery_eq : Plan.ofQuery store.schema .standard query = .ok plan := by cbv

/-- the step `a` and the one after it are loaded -/
theorem submit_populates_ring :
    store.schema.Built ∧ Query.ofTokens store.schema (tokenize text) = .ok query ∧
      Plan.ofQuery store.schema .standard query = .ok plan ∧
      ∃ (g : Graph) (slot : StoredRow → Nat) (trees : List RowTree), store.submit plan = .ok g ∧
        store.bindings plan = .ok (trees.map RowTree.binding) ∧
        (∀ t, t ∈ trees ↔ query.Matches store .standard t) ∧
        (∀ t ∈ trees, ∀ k, query.Linked t k ↔ t.binding.Joins plan.joins k) ∧
        query.Populates store .standard slot g :=
  ⟨built_store, ofTokens_eq, ofQuery_eq,
    Query.submit_populates built_store ofTokens_eq ofQuery_eq⟩

end Ring

end NestedQuery
