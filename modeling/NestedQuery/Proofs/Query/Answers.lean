import NestedQuery.Proofs.Graph.Population

/-!
# The answer to a query

A plan that comes from a query is carried out, whatever is stored, and answers what the query
means: it keeps the bindings of the matching rows, and the roots of its graph are the objects of
their roots, each once, in the order of a scan.

* `Query.nodup_trees`      the rows of a query are joined in each way once;
* `Query.keptRoots`        the scanned rows that are roots of something kept;
* `Query.submit_matches`   the bindings and the roots of a plan are those of the matching rows.
-/

namespace NestedQuery

/-! ## each way once -/

section
variable {st : Store} (hs : st.schema.Sound)
include hs

theorem nodup_blockTrees {s : Schema} {model : String} {members : List Member}
    (hres : s.Resolves model members) (own : StoredRow) : (blockTrees st own members).Nodup := by
  induction hres generalizing own with
  | nil model => exact List.nodup_singleton _
  | attr f _ _ ih =>
    rw [blockTrees_attribute]
    exact ih own
  | block _ _ _ _ ihc ih =>
    rw [blockTrees_relationship]
    refine List.nodup_flatMap.mpr ⟨fun row _ => List.nodup_flatMap.mpr ⟨fun inner _ => ?_, ?_⟩, ?_⟩
    · exact (ih own).map fun ts ts' h => (List.cons.inj h).2
    · refine (ihc row).imp fun {a b} hab x hxa hxb => hab ?_
      obtain ⟨_, _, rfl⟩ := List.mem_map.mp hxa
      obtain ⟨_, _, he⟩ := List.mem_map.mp hxb
      exact ((RowTree.node.inj (List.cons.inj he).1).2).symm
    · refine (Store.nodup_joined hs _ _ own).imp fun {a b} hab x hxa hxb => hab ?_
      obtain ⟨_, _, hxa⟩ := List.mem_flatMap.mp hxa
      obtain ⟨_, _, rfl⟩ := List.mem_map.mp hxa
      obtain ⟨_, _, hxb⟩ := List.mem_flatMap.mp hxb
      obtain ⟨_, _, he⟩ := List.mem_map.mp hxb
      exact ((RowTree.node.inj (List.cons.inj he).1).1).symm

/-- the rows of a query are joined in each way once -/
theorem Query.nodup_trees {q : Query} (hq : q.Resolved st.schema) : (q.trees st).Nodup := by
  refine List.nodup_flatMap.mpr ⟨fun row _ => ?_, ?_⟩
  · exact (nodup_blockTrees hs hq.members row).map fun a b h => (RowTree.node.inj h).2
  · refine (Store.nodup_rows hs q.model).imp fun {a b} hab x hxa hxb => hab ?_
    obtain ⟨_, _, rfl⟩ := List.mem_map.mp hxa
    obtain ⟨_, _, he⟩ := List.mem_map.mp hxb
    exact ((RowTree.node.inj he).1).symm

end

/-! ## roots -/

section
variable {st : Store} {c : Coercions} {q : Query} {p : Plan}

/-- what is kept of the rows below a scanned row -/
def Query.keptBelow (st : Store) (p : Plan) (q : Query) (row : StoredRow) : List RowTree :=
  ((blockTrees st row q.children).map fun inner => .node row inner).filter fun t =>
    p.filters.all fun f => f.holds st t.binding

/-- the scanned rows that are roots of something kept -/
def Query.keptRoots (st : Store) (p : Plan) (q : Query) : List StoredRow :=
  (st.rows q.model).filter fun row => !(q.keptBelow st p row).isEmpty

theorem Query.kept_eq : q.kept st p = (st.rows q.model).flatMap (q.keptBelow st p) :=
  List.filter_flatMap

theorem Query.row_of_mem_keptBelow {row : StoredRow} {t : RowTree}
    (h : t ∈ q.keptBelow st p row) : t.row = row := by
  obtain ⟨_, _, rfl⟩ := List.mem_map.mp (List.mem_of_mem_filter h)
  rfl

theorem Query.mem_keptRoots_iff {row : StoredRow} :
    row ∈ q.keptRoots st p ↔ ∃ t ∈ q.kept st p, t.row = row := by
  rw [keptRoots, List.mem_filter, kept_eq]
  simp only [List.mem_flatMap, Bool.not_eq_true', List.isEmpty_eq_false_iff_exists_mem]
  constructor
  · rintro ⟨hrow, t, ht⟩
    exact ⟨t, ⟨row, hrow, ht⟩, row_of_mem_keptBelow ht⟩
  · rintro ⟨t, ⟨row', hrow, ht⟩, rfl⟩
    rw [row_of_mem_keptBelow ht]
    exact ⟨hrow, t, ht⟩

/-- the slots of the roots, in the order of the scan -/
theorem Query.eraseDups_roots (slot : StoredRow → Nat) :
    (((q.kept st p).map RowTree.row).map slot).eraseDups =
      ((q.keptRoots st p).map slot).eraseDups := by
  rw [List.map_map, kept_eq]
  exact eraseDups_map_flatMap (fun row t ht => congrArg slot (row_of_mem_keptBelow ht)) _

/-- the roots of a graph are those of what is kept, in the order of the scan -/
theorem Query.exists_roots (hs : st.schema.Sound) (hq : q.Resolved st.schema)
    (hp : Plan.ofQuery st.schema c q = .ok p) :
    ∃ g slot, st.submit p = .ok g ∧ q.Populates st c slot g ∧
      g.roots = ((q.keptRoots st p).map slot).eraseDups := by
  obtain ⟨l, rows, links, hsubmit, hrecords, hrows, hlinks⟩ := Query.submit_records hs hq hp
  exact ⟨l.graph, l.slot st.schema, hsubmit,
    hrecords.populates hrows (Query.mem_roots_iff hq hp) hlinks,
    hrecords.roots_eq.trans (Query.eraseDups_roots _)⟩

theorem Query.mem_keptRoots_iff_matches (hq : q.Resolved st.schema)
    (hp : Plan.ofQuery st.schema c q = .ok p) (row : StoredRow) :
    row ∈ q.keptRoots st p ↔ ∃ t, q.Matches st c t ∧ t.row = row := by
  rw [mem_keptRoots_iff]
  simp only [mem_kept_iff hq hp]

/-- an object with the scalar fields of some row that has the identity of a row -/
def Object.StandsFor (s : Schema) (r : StoredRow) (o : Object) : Prop :=
  ∃ r' m, s.identity r' = s.identity r ∧ s.model? r.model = some m ∧ o.model = r.model ∧
    o.key = some (Store.keyOf m r'.row) ∧ o.fields = m.attributes.map fun name _ => r'.value name

theorem Query.Populates.standsFor {slot : StoredRow → Nat} {g : Graph}
    (h : q.Populates st c slot g) {r : StoredRow} (hr : q.Binds st c r) :
    ∃ o, g.object? (slot r) = some o ∧ o.StandsFor st.schema r := by
  obtain ⟨o, ho⟩ := (h.occupied (slot r)).mpr ⟨r, hr, rfl⟩
  obtain ⟨r', m, hr', hslot, hm, hloaded⟩ := h.objects _ o ho
  have hi := (h.slot_eq_iff r' r hr' hr).mp hslot
  have hmodel := Schema.model_eq_of_identity_eq hi
  exact ⟨o, ho, r', m, hi, hmodel ▸ hm, hmodel ▸ hloaded.model, hloaded.key, hloaded.fields⟩

/-- the plan of a query is carried out; it keeps the bindings of the matching rows, and its roots
are the objects of the scanned rows that are matching roots, each once -/
theorem Query.submit_matches {ts : TokenStream} (hs : st.schema.Built)
    (hq : Query.ofTokens st.schema ts = .ok q) (hp : Plan.ofQuery st.schema c q = .ok p) :
    ∃ (g : Graph) (trees : List RowTree) (scanned roots : List StoredRow)
      (slot : StoredRow → Nat),
      st.submit p = .ok g ∧
      st.bindings p = .ok (trees.map RowTree.binding) ∧ trees.Nodup ∧
      (∀ t, t ∈ trees ↔ q.Matches st c t) ∧
      st.scan q.model = .ok scanned ∧ roots.Sublist scanned ∧
      (∀ r, r ∈ roots ↔ ∃ t, q.Matches st c t ∧ t.row = r) ∧
      g.roots = (roots.map slot).eraseDups ∧
      (∀ r ∈ roots, ∃ o, g.object? (slot r) = some o ∧ o.StandsFor st.schema r) ∧
      ∀ r ∈ roots, ∀ r' ∈ roots,
        (slot r = slot r' ↔ st.schema.identity r = st.schema.identity r') := by
  have hr := Query.resolved_of_ofTokens hs.sound hq
  obtain ⟨m, hm⟩ := hr.root
  obtain ⟨g, slot, hsubmit, hg, hslots⟩ := Query.exists_roots hs.sound hr hp
  have hroots := Query.mem_keptRoots_iff_matches hr hp
  have hbinds : ∀ r ∈ q.keptRoots st p, q.Binds st c r := fun r hmem => by
    obtain ⟨t, ht, rfl⟩ := (hroots r).mp hmem
    exact ht.binds_row
  exact ⟨g, q.kept st p, st.rows q.model, q.keptRoots st p, slot, hsubmit,
    Store.bindings_eq hr hp, (Query.nodup_trees hs.sound hr).filter _,
    fun t => Query.mem_kept_iff hr hp, Store.scan_eq hm, List.filter_sublist, hroots, hslots,
    fun r hmem => hg.standsFor (hbinds r hmem),
    fun r hmem r' hmem' => hg.slot_eq_iff r r' (hbinds r hmem) (hbinds r' hmem')⟩

end

namespace Ring

/-- of the three steps one is a matching root -/
theorem submit_matches_ring :
    store.schema.Built ∧ Query.ofTokens store.schema (tokenize text) = .ok query ∧
      Plan.ofQuery store.schema .standard query = .ok plan ∧
      ∃ (g : Graph) (trees : List RowTree) (scanned roots : List StoredRow)
        (slot : StoredRow → Nat),
        store.submit plan = .ok g ∧
        store.bindings plan = .ok (trees.map RowTree.binding) ∧ trees.Nodup ∧
        (∀ t, t ∈ trees ↔ query.Matches store .standard t) ∧
        store.scan query.model = .ok scanned ∧ roots.Sublist scanned ∧
        (∀ r, r ∈ roots ↔ ∃ t, query.Matches store .standard t ∧ t.row = r) ∧
        g.roots = (roots.map slot).eraseDups ∧
        (∀ r ∈ roots, ∃ o, g.object? (slot r) = some o ∧ o.StandsFor store.schema r) ∧
        ∀ r ∈ roots, ∀ r' ∈ roots,
          (slot r = slot r' ↔ store.schema.identity r = store.schema.identity r') :=
  ⟨built_store, ofTokens_eq, ofQuery_eq,
    Query.submit_matches built_store ofTokens_eq ofQuery_eq⟩

end Ring

end NestedQuery
