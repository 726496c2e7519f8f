import NestedQuery.Proofs.Graph.Submitted
import NestedQuery.Proofs.Graph.Walk

/-!
# Scalars in documents

Attributes and relationships of a model have name spaces of their own, and the fields of an object
in a document have one.  An attribute is in the document of its object unless a relationship of the
same name is shown there.

* `Related.Shown`, `Object.Shows`   a relationship that leaves something in a document;
* `Object.Loaded.get?_fields`   the field of an attribute, whether a relationship is shown or not;
* `Query.Binds.stored`          rows that match are stored;
* `Database.document_scalars`   all objects anywhere in a document have all their scalars, less
                                those whose names belong to a relationship that is shown;
* `Racks.rack_lost`             such a relationship takes the place of an attribute.
-/

namespace NestedQuery

/-! ## relationships that are shown -/

/-- an object, or an array of objects -/
inductive Json.OfObjects : Json → Prop
  | one (fields : List (String × Json)) : OfObjects (.object fields)
  | many {items : List Json} (h : ∀ j ∈ items, ∃ fields, j = .object fields) :
      OfObjects (.array items)

/-- no scalar is written like a relationship, but for a list without items -/
theorem Value.eq_array_of_ofObjects {v : Value} (h : v.document.OfObjects) :
    v.document = .array [] := by
  generalize hj : v.document = j at h
  cases h with
  | one fields => exact absurd hj (document_ne_object fields v)
  | @many items hitems =>
    cases items with
    | nil => rfl
    | cons j rest =>
      obtain ⟨fields, rfl⟩ := hitems j List.mem_cons_self
      exact absurd (hj ▸ .item List.mem_cons_self) (not_within_document fields v)

/-- a relationship that is shown below some identities: it is loaded, with many objects, or with
one that has none of the identities -/
inductive Related.Shown (g : Graph) (ids : List Identity) : Related → Prop
  | one {target : Object} {n : Nat} (htarget : g.object? n = some target)
      (hnew : Identity.of target n ∉ ids) : Shown g ids (.one (some n))
  | many (slots : List Nat) : Shown g ids (.many slots)

/-- the object has a relationship of a name that is shown below some identities -/
def Object.Shows (g : Graph) (ids : List Identity) (o : Object) (name : String) : Prop :=
  ∃ r, o.relations.get? name = some r ∧ r.Shown g ids

section
variable {g : Graph} {ids : List Identity}

/-- a relationship of a stored object leaves objects in a document where it is shown, and nothing
where it is not -/
theorem Related.Suits.document_cases {c : Cardinality} {r : Related} (h : r.Suits c)
    {x : Option Json} (hx : r.document (g.visit ids) false = .ok x) :
    (r.Shown g ids ∧ ∃ w, x = some w ∧ w.OfObjects) ∨ ¬ r.Shown g ids ∧ x = none := by
  cases h with
  | deferred c =>
    cases hx
    exact .inr ⟨nofun, rfl⟩
  | one n =>
    have hx : g.visit ids n = .ok x := hx
    cases htarget : g.object? n with
    | none =>
      rw [Graph.visit_of_dangling htarget] at hx
      cases hx
    | some target =>
      by_cases hmem : Identity.of target n ∈ ids
      · rw [Graph.visit_of_mem htarget hmem] at hx
        cases hx
        refine .inr ⟨fun hshown => ?_, rfl⟩
        cases hshown with
        | one htarget' hnew =>
          cases htarget.symm.trans htarget'
          exact hnew hmem
      · rw [Graph.visit_of_notMem htarget hmem] at hx
        obtain ⟨w, hw, rfl⟩ := map_eq_ok.mp hx
        obtain ⟨fields, rfl, -⟩ := Object.field_of_document hw
        exact .inl ⟨.one htarget hmem, _, rfl, .one fields⟩
  | many hne hnd =>
    obtain ⟨items, hitems, rfl⟩ := map_eq_ok.mp hx
    refine .inl ⟨.many _, _, rfl, .many fun j hj => ?_⟩
    obtain ⟨n, -, hn⟩ := mem_visitAll hitems hj
    exact Graph.visit_object hn

/-! ## fields of attributes -/

variable {m : Model} {row : StoredRow} {targets : String → Nat → Prop} {o : Object}
  (ho : o.Loaded m row targets) {j : Json} (hj : o.document (g.visit ids) = .ok j)
include ho hj

theorem Object.Loaded.shown?_cases (name : String) :
    (o.Shows g ids name ∧ ∃ w, o.shown? (g.visit ids) name = some w ∧ w.OfObjects) ∨
      ¬ o.Shows g ids name ∧ o.shown? (g.visit ids) name = none := by
  cases hr : o.relations.get? name with
  | none =>
    refine .inr ⟨?_, ?_⟩
    · rintro ⟨r, hget, -⟩
      cases hr.symm.trans hget
    · rw [shown?, hr]
      rfl
  | some r =>
    have hanswers : ∀ n ∈ r.slots, Visit.Answers (g.visit ids) n := fun n hn =>
      Object.exists_document_iff.mp ⟨j, hj⟩ n (mem_slots_iff.mpr ⟨name, r, hr, hn⟩)
    obtain ⟨x, hx⟩ := (Related.exists_document_iff false).mpr hanswers
    have hshown : o.shown? (g.visit ids) name = x := by
      have hsaved : o.isUnsaved = false := by rw [isUnsaved, ho.state]
      rw [shown?, hr, hsaved, Option.bind_some, hx]
      rfl
    have hshows : o.Shows g ids name ↔ r.Shown g ids := by
      constructor
      · rintro ⟨r', hget, hshown⟩
        cases hr.symm.trans hget
        exact hshown
      · intro hshown
        exact ⟨r, hr, hshown⟩
    obtain ⟨rel, hrel, -⟩ := ho.exists_relationship hr
    rw [hshown, hshows]
    exact (ho.suits.related name r rel hr hrel).document_cases hx

/-- the field of an attribute is its scalar, or objects if a relationship of its name is shown -/
theorem Object.Loaded.field_of_attribute {name : String} {a : Attribute}
    (ha : m.attributes.get? name = some a) : ∃ fields w, j = .object fields ∧
      (∀ w', (name, w') ∈ fields ↔ w' = w) ∧
      (¬ o.Shows g ids name → w = (row.value name).document) ∧
      (o.Shows g ids name → w.OfObjects) := by
  obtain ⟨fields, rfl, hfields⟩ := Object.fields_of_document hj
  have hname := hfields name
  rw [ho.fields, Dict.get?_map, ha, Option.map_some, Option.map_some] at hname
  obtain ⟨hshows, w, hw, hobjects⟩ | ⟨hshows, hw⟩ := ho.shown?_cases hj name
  · rw [hw, Option.some_or] at hname
    refine ⟨_, w, rfl, fun w' => ?_, fun h => absurd hshows h, fun _ => hobjects⟩
    rw [Dict.mem_entries_iff, hname, Option.some.injEq, eq_comm]
  · rw [hw, Option.none_or] at hname
    refine ⟨_, _, rfl, fun w' => ?_, fun _ => rfl, fun h => absurd h hshows⟩
    rw [Dict.mem_entries_iff, hname, Option.some.injEq, eq_comm]

end

/-! ## rows -/

theorem Matches.stored {st : Store} {c : Coercions} {site : Site} {members : List Member}
    {ts : List RowTree} (h : Matches st c site members ts) :
    ∀ row ∈ RowTree.rowsAll ts, row ∈ st.rowsOf row.model := by
  induction h with
  | nil site => exact List.forall_mem_nil _
  | bare _ ih => exact ih
  | filtered _ _ ih => exact ih
  | block hrow _ _ ihinner ih =>
    rw [RowTree.rowsAll_node, List.forall_mem_cons, List.forall_mem_append]
    exact ⟨Store.mem_rowsOf_of_mem_rows (Store.mem_joined_iff.mp hrow).1, ihinner, ih⟩

theorem Query.Binds.stored {st : Store} {c : Coercions} {q : Query} {row : StoredRow}
    (h : q.Binds st c row) : row ∈ st.rowsOf row.model := by
  obtain ⟨t, ht, hrow⟩ := h
  cases t with
  | node own inner =>
    rcases List.mem_cons.mp hrow with rfl | hrow
    · exact Store.mem_rowsOf_of_mem_rows ht.root
    · exact ht.members.stored row hrow

/-! ## documents of a text -/

namespace Graph

/-- the last object along a path, which is in the slot that its identity is about -/
theorem Trail.exists_last {g : Graph} {path ids : List Identity} {slot : Nat}
    {names : List String} {j : Json} (h : g.Trail path slot names j ids) :
    ∃ path' slot' o, ids = Identity.of o slot' :: path' ∧ g.object? slot' = some o ∧
      o.document (g.visit ids) = .ok j := by
  induction h with
  | last ho hj =>
    obtain ⟨o', ho', -, hdoc⟩ := visit_eq_ok hj
    cases ho.symm.trans ho'
    exact ⟨_, _, _, rfl, ho, hdoc⟩
  | step _ _ _ _ ih => exact ih

end Graph

/-- every object in a document, at the end of whichever path, is that of a stored row.  For every
attribute of the row's model it has one field of the name: the scalar of the row's column, unless
a relationship of the same name is shown in the object; such a relationship is in the place of the
scalar, which is not there then, except that two lists without items look the same. -/
theorem Database.document_scalars {d : Database} {text : String} {doc : Json}
    (hs : d.schema.Built) (h : d.document text = .ok doc) :
    ∃ g items, d.graph text = .ok g ∧ doc = .array items ∧
      ∀ item ∈ items, ∃ root ∈ g.roots, ∀ names fields, item.Path names (.object fields) →
        ∃ path slot o row m,
          g.Trail [] root names (.object fields) (Identity.of o slot :: path) ∧
          g.object? slot = some o ∧ row ∈ d.store.rowsOf row.model ∧
          d.schema.model? row.model = some m ∧ o.model = row.model ∧
          o.key = some (Store.keyOf m row.row) ∧
          ∀ name a, m.attributes.get? name = some a →
            ∃ w, (∀ w', (name, w') ∈ fields ↔ w' = w) ∧
              (¬ o.Shows g (Identity.of o slot :: path) name → w = (row.value name).document) ∧
              (o.Shows g (Identity.of o slot :: path) name →
                (∃ rel, m.relationships.get? name = some rel) ∧ w.OfObjects ∧
                  (w = (row.value name).document → w = .array [])) := by
  obtain ⟨g, hgraph, hdoc⟩ := bind_eq_ok.mp h
  obtain ⟨p, hplan, hsubmit⟩ := bind_eq_ok.mp hgraph
  obtain ⟨q, hq, hp⟩ := bind_eq_ok.mp hplan
  obtain ⟨items, hitems, rfl⟩ := map_eq_ok.mp hdoc
  have hr := Query.resolved_of_ofText hs.sound hq
  obtain ⟨g', slotOf, hsubmit', hg⟩ := Query.exists_populates hs.sound hr hp
  cases hsubmit.symm.trans hsubmit'
  refine ⟨g, items, hgraph, rfl, fun item hitem => ?_⟩
  obtain ⟨root, hroot, hvisit⟩ := mem_visitAll hitems hitem
  refine ⟨root, hroot, fun names fields hpath => ?_⟩
  obtain ⟨ids, htrail, -⟩ := Graph.exists_trail hpath List.nodup_nil hvisit
  obtain ⟨path, slot, o, rfl, ho, hj⟩ := htrail.exists_last
  obtain ⟨row, m, hrow, -, hm, hloaded⟩ := hg.objects slot o ho
  refine ⟨path, slot, o, row, m, htrail, ho, hrow.stored, hm, hloaded.model, hloaded.key,
    fun name a ha => ?_⟩
  obtain ⟨_, w, he, hw, hscalar, hobjects⟩ := hloaded.field_of_attribute hj ha
  cases he
  refine ⟨w, hw, hscalar, fun hshows => ⟨?_, hobjects hshows, fun he => ?_⟩⟩
  · obtain ⟨r, hrelated, -⟩ := hshows
    obtain ⟨rel, hrel, -⟩ := hloaded.exists_relationship hrelated
    exact ⟨rel, hrel⟩
  · subst he
    exact Value.eq_array_of_ofObjects (hobjects hshows)

/-! ## a rack -/

namespace Racks

/-- a tube has the number of its rack, and the rack, under one name -/
def declarations : List Declaration :=
  [(Declaration.named "Rack").addKeyColumn "id",
    (((Declaration.named "Tube").addKeyColumn "id").addAttribute "rack" .integer).addRelationship
      "rack" "Rack" .one "rack" "id"]

def schema : Schema := (Schema.ofDeclarations declarations).toOption.getD .empty

theorem ofDeclarations_eq : Schema.ofDeclarations declarations = .ok schema := by cbv

theorem built : schema.Built := by
  refine ⟨declarations, fun d hd => ?_, ofDeclarations_eq⟩
  rcases List.mem_cons.mp hd with rfl | hd
  · exact .addKeyColumn _ (.named _)
  · cases List.mem_singleton.mp hd
    exact .addRelationship _ _ _ _ _ (.addAttribute _ _ (.addKeyColumn _ (.named _)))

/-- the tube 1 is in the rack 7 -/
def tube : Row := Dict.ofList [("id", .integer 1), ("rack", .integer 7)]

def database : Database :=
  ⟨((Store.empty schema).insertAll
    [("Rack", Dict.ofList [("id", .integer 7)]), ("Tube", tube)]).toOption.getD (.empty schema),
    .standard⟩

theorem schema_database : database.schema = schema := by cbv

theorem built_database : database.schema.Built := schema_database ▸ built

def text : String := "query Tube \x7b\n rack \x7b\n \x7d\n\x7d"

def fields : List (String × Json) := [("id", .integer 1), ("rack", .object [("id", .integer 7)])]

theorem document_eq : database.document text = .ok (.array [.object fields]) := by cbv

/-- a tube is stored with the number of its rack, which is nowhere in the tube's object -/
theorem rack_lost :
    database.schema.Built ∧ database.document text = .ok (.array [.object fields]) ∧
      (∃ a, database.schema.attribute? "Tube" "rack" = some a) ∧
      database.store.rowsOf "Tube" = [⟨"Tube", 0, tube⟩] ∧
      (Row.value tube "rack").document = .integer 7 ∧ ("rack", .integer 7) ∉ fields :=
  ⟨built_database, document_eq, ⟨_, by cbv⟩, by cbv, by cbv, by simp [fields]⟩

/-- the tube shows its rack, for which it has an object -/
theorem document_scalars_racks :
    database.schema.Built ∧ database.document text = .ok (.array [.object fields]) ∧
      ∃ g items, database.graph text = .ok g ∧
        Json.array [.object fields] = .array items ∧
        ∀ item ∈ items, ∃ root ∈ g.roots, ∀ names fields, item.Path names (.object fields) →
          ∃ path slot o row m,
            g.Trail [] root names (.object fields) (Identity.of o slot :: path) ∧
            g.object? slot = some o ∧ row ∈ database.store.rowsOf row.model ∧
            database.schema.model? row.model = some m ∧ o.model = row.model ∧
            o.key = some (Store.keyOf m row.row) ∧
            ∀ name a, m.attributes.get? name = some a →
              ∃ w, (∀ w', (name, w') ∈ fields ↔ w' = w) ∧
                (¬ o.Shows g (Identity.of o slot :: path) name →
                  w = (row.value name).document) ∧
                (o.Shows g (Identity.of o slot :: path) name →
                  (∃ rel, m.relationships.get? name = some rel) ∧ w.OfObjects ∧
                    (w = (row.value name).document → w = .array [])) :=
  ⟨built_database, document_eq, Database.document_scalars built_database document_eq⟩

end Racks

end NestedQuery
