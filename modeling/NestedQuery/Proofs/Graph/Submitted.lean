import NestedQuery.Proofs.Graph.Chains
import NestedQuery.Proofs.Graph.Closed

/-!
# Graphs of all plans

A plan need not come from a query.  Its joins may bind one number twice, and its chains may lead
along any names to any aliases, so that they need not follow the joins.  Whatever comes of such a
plan is recorded as what comes of a query, and its graph fits the schema.

* `Binding.exists_follows`, `Binding.exists_loads`   a chain that is gone through leads somewhere;
* `Loading.Records.of_addBindings`   the records that many bindings leave behind;
* `Related.Suits`, `Object.Suits`    relationships and objects as a model declares them;
* `Graph.WellFormed`                 a graph of such objects without dangling slots;
* `Store.submit_wellFormed`          the graph of any plan is one.
-/

namespace NestedQuery

/-! ## steps that succeed -/

namespace Binding
variable {s : Schema} {b : Binding} {l l' : Loading}

/-- a chain that is gone through leads along known relationships to rows of known models -/
theorem exists_follows {row : StoredRow} {slot : Nat} {chain : List Hop}
    (h : l.followChain s b row slot chain = .ok l') : ∃ last, b.Follows s row chain last := by
  induction chain generalizing l row slot with
  | nil => exact ⟨row, .nil row⟩
  | cons hop rest ih =>
    obtain ⟨child, hchild, h⟩ := bind_eq_ok.mp h
    obtain ⟨⟨n, l₁⟩, hplace, h⟩ := bind_eq_ok.mp h
    obtain ⟨l₂, hattach, h⟩ := bind_eq_ok.mp h
    obtain ⟨m, hm, -⟩ := map_eq_ok.mp hplace
    obtain ⟨rel, hrel, -⟩ := map_eq_ok.mp hattach
    obtain ⟨last, hlast⟩ := ih h
    exact ⟨last, .cons (row_eq_ok_iff.mp hchild) (Schema.modelNamed_ok_iff.mp hm)
      (Schema.relationshipOf_ok_iff.mp hrel) hlast⟩

theorem exists_follows_all {row : StoredRow} {slot : Nat} {chains : List (List Hop)}
    (h : Loading.followChains s b row slot l chains = .ok l') :
    ∀ chain ∈ chains, ∃ last, b.Follows s row chain last := by
  induction chains generalizing l with
  | nil => exact List.forall_mem_nil _
  | cons chain rest ih =>
    obtain ⟨l₁, hchain, hrest⟩ := bind_eq_ok.mp h
    exact List.forall_mem_cons.mpr ⟨exists_follows hchain, ih hrest⟩

theorem exists_loads {p : Plan} (h : l.addBinding s p b = .ok l') :
    ∃ root, b.Loads s p root := by
  obtain ⟨root, hroot, h⟩ := bind_eq_ok.mp h
  obtain ⟨⟨slot, l₁⟩, hplace, h⟩ := bind_eq_ok.mp h
  obtain ⟨m, hm, -⟩ := map_eq_ok.mp hplace
  exact ⟨root, hroot, ⟨m, Schema.modelNamed_ok_iff.mp hm⟩, exists_follows_all h⟩

end Binding

/-- every binding leaves records behind, from which the next one goes on -/
theorem Loading.Records.of_addBindings {s : Schema} {p : Plan} {l l' : Loading}
    {rows roots : List StoredRow} {links : List Link} {bs : List Binding}
    (h : l.Records s rows roots links) (hadd : l.addBindings s p bs = .ok l') :
    ∃ rows' roots' links', l'.Records s rows' roots' links' := by
  induction bs generalizing l rows roots links with
  | nil =>
    cases hadd
    exact ⟨rows, roots, links, h⟩
  | cons b rest ih =>
    obtain ⟨l₁, hfirst, hrest⟩ := bind_eq_ok.mp hadd
    obtain ⟨root, hloads⟩ := Binding.exists_loads hfirst
    obtain ⟨l₂, hsecond, h₂⟩ := h.addBinding hloads
    cases hfirst.symm.trans hsecond
    exact ih h₂ hrest

theorem Store.records_of_submit {st : Store} {p : Plan} {g : Graph} (h : st.submit p = .ok g) :
    ∃ l rows roots links, Loading.Records st.schema rows roots links l ∧ l.graph = g := by
  obtain ⟨m, -, h⟩ := bind_eq_ok.mp h
  obtain ⟨u, -, h⟩ := bind_eq_ok.mp h
  obtain ⟨bs, -, h⟩ := bind_eq_ok.mp h
  obtain ⟨l, hl, hg⟩ := map_eq_ok.mp h
  obtain ⟨rows, roots, links, hrecords⟩ :=
    (Loading.records_empty st.schema).of_addBindings hl
  exact ⟨l, rows, roots, links, hrecords, hg⟩

/-! ## graphs that fit a schema -/

/-- a relationship of a cardinality that is not loaded, or loaded with one object, or with some
different objects -/
inductive Related.Suits : Cardinality → Related → Prop
  | deferred (c : Cardinality) : Suits c (.deferred c)
  | one (slot : Nat) : Suits .one (.one (some slot))
  | many {slots : List Nat} (hne : slots ≠ []) (hnd : slots.Nodup) : Suits .many (.many slots)

theorem Related.Holds.suits {c : Cardinality} {targets : Nat → Prop} {r : Related}
    (h : r.Holds c targets) : r.Suits c := by
  cases h with
  | deferred _ => exact .deferred c
  | one hc _ =>
    subst hc
    exact .one _
  | many hc hne hnd _ =>
    subst hc
    exact .many hne hnd

theorem Related.Holds.target {c : Cardinality} {targets : Nat → Prop} {r : Related}
    (h : r.Holds c targets) : ∀ n ∈ r.slots, targets n := by
  cases h with
  | deferred _ => exact List.forall_mem_nil _
  | one _ h => exact List.forall_mem_singleton.mpr h
  | many _ _ _ h => exact fun n hn => (h n).mp hn

/-- an object with the attributes of a model as its fields, and with the model's relationships, each
as it is declared -/
structure Object.Suits (m : Model) (o : Object) : Prop where
  fields : o.fields.keys = m.attributes.keys
  relations : o.relations.keys = m.relationships.keys
  related : ∀ name r rel, o.relations.get? name = some r →
    m.relationships.get? name = some rel → r.Suits rel.cardinality

theorem Object.Loaded.suits {m : Model} {r : StoredRow} {targets : String → Nat → Prop}
    {o : Object} (h : o.Loaded m r targets) : o.Suits m where
  fields := by rw [h.fields, Dict.keys_map]
  relations := by
    refine Dict.keys_eq_of_isSome fun name => ?_
    have hname := h.relations name
    cases hrel : m.relationships.get? name with
    | none =>
      rw [hrel] at hname
      generalize o.relations.get? name = x at hname
      cases hname
      rfl
    | some rel =>
      obtain ⟨related, hrelated, -⟩ := h.exists_related hrel
      rw [hrelated]
      rfl
  related name related rel hrelated hrel := by
    obtain ⟨rel', hrel', hholds⟩ := h.exists_relationship hrelated
    cases hrel.symm.trans hrel'
    exact hholds.suits

/-- no slot dangles, no root comes twice, and every object suits a model of the schema -/
structure Graph.WellFormed (s : Schema) (g : Graph) : Prop where
  closed : g.Closed
  roots_differ : g.roots.Nodup
  objects : ∀ n o, g.object? n = some o → ∃ m, s.model? o.model = some m ∧ o.Suits m

namespace Loading.Records
variable {s : Schema} {l : Loading} {rows roots : List StoredRow} {links : List Link}
  (h : l.Records s rows roots links)
include h

/-- an object of the graph is that of a row, and its relationships lead along links -/
theorem exists_loaded {n : Nat} {o : Object} (ho : l.graph.object? n = some o) :
    ∃ r m i, s.model? r.model = some m ∧ o.Loaded m r (l.Targets s links i) := by
  rw [object?_graph] at ho
  obtain ⟨e, he, rfl⟩ := Option.map_eq_some_iff.mp ho
  obtain ⟨r, -, m, hm, -, hloaded⟩ := h.objects e (List.mem_of_getElem? he)
  exact ⟨r, m, e.1, hm, hloaded⟩

theorem mem_roots {n : Nat} (hn : n ∈ l.graph.roots) : ∃ r ∈ rows, l.slot s r = n := by
  have hn : n ∈ l.roots := hn
  rw [h.roots_eq, List.mem_eraseDups] at hn
  obtain ⟨r, hr, hslot⟩ := List.mem_map.mp hn
  exact ⟨r, h.roots_mem r hr, hslot⟩

theorem closed : l.graph.Closed where
  roots n hn := by
    obtain ⟨r, hr, rfl⟩ := h.mem_roots hn
    exact h.exists_object hr
  relations i o name related ho hrelated n hn := by
    obtain ⟨r, m, i, hm, hloaded⟩ := h.exists_loaded ho
    obtain ⟨rel, -, hholds⟩ := hloaded.exists_relationship hrelated
    -- a slot in a relationship is that of the row at the end of a link
    obtain ⟨k, hk, -, -, rfl⟩ := hholds.target n hn
    exact h.exists_object (h.linked k hk).2

theorem wellFormed : l.graph.WellFormed s where
  closed := h.closed
  roots_differ := by
    show l.roots.Nodup
    rw [h.roots_eq]
    exact nodup_eraseDups _
  objects n o ho := by
    obtain ⟨r, m, i, hm, hloaded⟩ := h.exists_loaded ho
    refine ⟨m, ?_, hloaded.suits⟩
    rw [hloaded.model]
    exact hm

end Loading.Records

/-- what any plan gives on any store is a graph without dangling slots, with different roots, in
which every object has the fields of its model, and the relationships of its model as they are
declared: a loaded one is of its cardinality, has at least one object, and has no object twice -/
theorem Store.submit_wellFormed {st : Store} {p : Plan} {g : Graph} (h : st.submit p = .ok g) :
    g.WellFormed st.schema := by
  obtain ⟨l, rows, roots, links, hrecords, rfl⟩ := records_of_submit h
  exact hrecords.wellFormed

/-! ## folders and shortcuts -/

namespace Folders

/-- a folder has many entries, and a shortcut is a folder with one -/
def declarations : List Declaration :=
  [(((Declaration.named "Folder").addKeyColumn "id").addAttribute "parent" .integer).addRelationship
      "entries" "Folder" .many "id" "parent",
    ((Declaration.named "Shortcut").addRelationship "entries" "Folder" .one "id" "parent").withParent
      "Folder"]

def schema : Schema := (Schema.ofDeclarations declarations).toOption.getD .empty

/-- a folder with a shortcut and another folder in it -/
def store : Store :=
  ((Store.empty schema).insertAll
    [("Folder", Dict.ofList [("id", .integer 1)]),
      ("Shortcut", Dict.ofList [("id", .integer 2), ("parent", .integer 1)]),
      ("Folder", Dict.ofList [("id", .integer 3), ("parent", .integer 1)])]
    ).toOption.getD (.empty schema)

def entries : Relationship := ⟨"Folder", "entries", "Folder", .many, "id", "parent"⟩

/-- no query gives this plan: its second join binds the number of the first one again, and its
chains lead back to the root, along no join -/
def plan : Plan :=
  let folder (number : Nat) : Alias := ⟨"Folder", number⟩
  ⟨"Folder", folder 0,
    [.join ⟨folder 1, folder 0, entries⟩, .join ⟨folder 1, folder 0, entries⟩,
      .load [⟨"entries", folder 1⟩, ⟨"entries", folder 0⟩]]⟩

def graph : Graph := (store.submit plan).toOption.getD .empty

theorem submit_wellFormed_folders :
    store.submit plan = .ok graph ∧ graph.WellFormed store.schema := by
  have hsubmit : store.submit plan = .ok graph := by cbv
  exact ⟨hsubmit, Store.submit_wellFormed hsubmit⟩

/-- the shortcut has one entry where the folders have many -/
example : graph.objects.map (fun o => (o.model, o.relations.get? "entries")) =
    [("Folder", some (.many [1, 2])), ("Folder", some (.many [0])),
      ("Shortcut", some (.one (some 0)))] := by cbv

end Folders

end NestedQuery
