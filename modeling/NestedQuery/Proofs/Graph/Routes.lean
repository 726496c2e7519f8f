import NestedQuery.Database
import NestedQuery.Proofs.Graph.Population
import NestedQuery.Proofs.Json.Paths

/-!
# Which paths of a document are requested

A relationship is loaded for an object, wherever in the query its block stands.  A path in a
document is therefore a route of different objects, each of which has a block of the right name
around it somewhere in the query; the blocks of a route need not stand inside of each other, unless
every object is bound at one place of the query only.

* `Query.Requests`               a block of a name inside of one with a row of an object;
* `Query.Route`                  different objects, each requested for the one before it;
* `Database.document_requested`  the paths of a document are routes;
* `Requested`, `Query.StandsAt`  nested blocks, and the rows that are bound at their end;
* `Ring.document_beyond`         a path in a document without such blocks in the query.
-/

namespace NestedQuery

section
variable (st : Store) (c : Coercions) (q : Query)

/-- a block of a name stands inside of one with a row of the same object -/
def Query.Requests (row : StoredRow) (name : String) (child : StoredRow) : Prop :=
  ∃ k, q.Links st c k ∧ st.schema.identity k.parent = st.schema.identity row ∧ k.name = name ∧
    k.child = child

/-- objects different from each other and from those of the rows in a list, each of which is
requested for the one before it -/
inductive Query.Route : List StoredRow → StoredRow → List String → StoredRow → Prop
  | nil {seen : List StoredRow} {row : StoredRow}
      (hnew : ∀ x ∈ seen, st.schema.identity x ≠ st.schema.identity row) : Route seen row [] row
  | cons {seen : List StoredRow} {row child last : StoredRow} {name : String}
      {rest : List String}
      (hnew : ∀ x ∈ seen, st.schema.identity x ≠ st.schema.identity row)
      (hrequest : q.Requests st c row name child) (hrest : Route (row :: seen) child rest last) :
      Route seen row (name :: rest) last

end

/-- the document of an attribute of some row of the same object -/
def Schema.ScalarOf (s : Schema) (row : StoredRow) (name : String) (w : Json) : Prop :=
  ∃ row' m a, s.identity row' = s.identity row ∧ s.model? row.model = some m ∧
    m.attributes.get? name = some a ∧ w = (row'.value name).document

/-! ## objects and their relationships -/

theorem Related.Holds.mem_slots {c : Cardinality} {targets : Nat → Prop} {r : Related}
    (h : r.Holds c targets) {n : Nat} (hn : n ∈ r.slots) : targets n := by
  cases h with
  | deferred h => cases hn
  | one hc h =>
    cases List.mem_singleton.mp hn
    exact h
  | many hc hne hnd h => exact (h n).mp hn

section
variable {st : Store} {c : Coercions} {q : Query} {slot : StoredRow → Nat} {g : Graph}
  (hg : q.Populates st c slot g)
include hg

theorem Query.Populates.identity_eq {r r' : StoredRow} (hr : q.Binds st c r)
    (hr' : q.Binds st c r') (h : slot r = slot r') :
    st.schema.identity r = st.schema.identity r' := (hg.slot_eq_iff r r' hr hr').mp h

variable {row : StoredRow} (hrow : q.Binds st c row) {o : Object}
  (ho : g.object? (slot row) = some o)
include hrow ho

theorem Query.Populates.requests {name : String} {related : Related}
    (hrelated : o.relations.get? name = some related) {n : Nat} (hn : n ∈ related.slots) :
    ∃ child, q.Requests st c row name child ∧ q.Binds st c child ∧ slot child = n := by
  obtain ⟨r, m, -, -, -, hloaded⟩ := hg.objects _ o ho
  obtain ⟨rel, -, hholds⟩ := hloaded.exists_relationship hrelated
  obtain ⟨k, hk, hparent, hkname, hchild⟩ := hholds.mem_slots hn
  have hbinds := hk.binds
  exact ⟨k.child, ⟨k, hk, hg.identity_eq hbinds.1 hrow hparent, hkname, rfl⟩, hbinds.2, hchild⟩

theorem Query.Populates.requests_of_isLoaded {name : String} (h : o.isLoaded name = true) :
    ∃ child, q.Requests st c row name child := by
  obtain ⟨k, hk, hparent, hkname⟩ := (hg.isLoaded_iff row o name hrow ho).mp h
  exact ⟨k.child, k, hk, hg.identity_eq hk.binds.1 hrow hparent, hkname, rfl⟩

omit hrow in
theorem Query.Populates.isUnsaved_eq : o.isUnsaved = false := by
  obtain ⟨r, m, -, -, -, hloaded⟩ := hg.objects _ o ho
  rw [Object.isUnsaved, hloaded.state]

theorem Query.Populates.scalarOf {name : String} {v : Value}
    (hv : o.fields.get? name = some v) : st.schema.ScalarOf row name v.document := by
  obtain ⟨r, m, hr, hslot, hm, hloaded⟩ := hg.objects _ o ho
  have hi := hg.identity_eq hr hrow hslot
  rw [hloaded.fields, Dict.get?_map] at hv
  obtain ⟨a, ha, rfl⟩ := Option.map_eq_some_iff.mp hv
  exact ⟨r, m, a, hi, Schema.model_eq_of_identity_eq hi ▸ hm, ha, rfl⟩

end

/-! ## documents -/

section
variable {st : Store} {c : Coercions} {q : Query} {slot : StoredRow → Nat} {g : Graph}
  (hg : q.Populates st c slot g)
include hg

/-- the objects of some rows are on a path -/
def OnPath (st : Store) (c : Coercions) (q : Query) (slot : StoredRow → Nat) (g : Graph)
    (path : List Identity) (seen : List StoredRow) : Prop :=
  ∀ x ∈ seen, q.Binds st c x ∧ ∀ o, g.object? (slot x) = some o → Identity.of o (slot x) ∈ path

/-- an object that is not on a path is none of those that are -/
theorem Query.Populates.identity_ne {path : List Identity} {seen : List StoredRow}
    (hseen : OnPath st c q slot g path seen) {row : StoredRow} (hrow : q.Binds st c row)
    {o : Object} (ho : g.object? (slot row) = some o) (hnot : Identity.of o (slot row) ∉ path) :
    ∀ x ∈ seen, st.schema.identity x ≠ st.schema.identity row := by
  intro x hx hi
  have hslot := (hg.slot_eq_iff x row (hseen x hx).1 hrow).mpr hi
  rw [← hslot] at ho hnot
  exact hnot ((hseen x hx).2 o ho)

omit hg in
theorem OnPath.cons {path : List Identity} {seen : List StoredRow}
    (hseen : OnPath st c q slot g path seen) {row : StoredRow} (hrow : q.Binds st c row)
    {o : Object} (ho : g.object? (slot row) = some o) :
    OnPath st c q slot g (Identity.of o (slot row) :: path) (row :: seen) := by
  intro x hx
  rcases List.mem_cons.mp hx with rfl | hx
  · refine ⟨hrow, fun o' ho' => ?_⟩
    rw [ho] at ho'
    cases ho'
    exact List.mem_cons_self
  · exact ⟨(hseen x hx).1, fun o' ho' => List.mem_cons_of_mem _ ((hseen x hx).2 o' ho')⟩

/-- the paths of the document of an object are routes -/
theorem Query.Populates.route_of_path {d : Json} {names : List String}
    {fields : List (String × Json)} (hpath : d.Path names (.object fields))
    {path : List Identity} {seen : List StoredRow} (hseen : OnPath st c q slot g path seen)
    {row : StoredRow} (hrow : q.Binds st c row)
    (hvisit : g.visit path (slot row) = .ok (some d)) {name : String} {w : Json}
    (hw : (name, w) ∈ fields) :
    ∃ last, q.Route st c seen row names last ∧
      ((∃ child, q.Requests st c last name child) ∨ st.schema.ScalarOf last name w) := by
  generalize hj : Json.object fields = j at hpath
  induction hpath generalizing path seen row with
  | nil j =>
    subst hj
    obtain ⟨o, ho, hnot, hd⟩ := Graph.visit_eq_ok hvisit
    obtain ⟨own, he, hfields⟩ := Object.field_of_document hd
    cases he
    refine ⟨row, .nil (hg.identity_ne hseen hrow ho hnot), ?_⟩
    rcases hfields name w hw with ⟨related, hrelated, hdoc⟩ | ⟨v, hv, rfl⟩
    · rw [hg.isUnsaved_eq ho] at hdoc
      refine Or.inl (hg.requests_of_isLoaded hrow ho ?_)
      rw [Object.isLoaded, hrelated]
      exact Related.isLoaded_of_document hdoc
    · exact Or.inr (hg.scalarOf hrow ho hv)
  | @cons own first rest w' v j hfield hv hrest ih =>
    subst hj
    obtain ⟨o, ho, hnot, hd⟩ := Graph.visit_eq_ok hvisit
    obtain ⟨own', he, hfields⟩ := Object.field_of_document hd
    cases he
    obtain ⟨below, rfl⟩ := hrest.eq_object
    -- an object below this one is in one of its relationships
    rcases hfields first w' hfield with ⟨related, hrelated, hdoc⟩ | ⟨scalar, hscalar, rfl⟩
    · rw [hg.isUnsaved_eq ho] at hdoc
      obtain ⟨n, hn, hvisit'⟩ := Related.visit_of_within (fun _ _ => Graph.visit_object) hdoc hv
      obtain ⟨child, hrequest, hchild, rfl⟩ := hg.requests hrow ho hrelated hn
      obtain ⟨last, hroute, hlast⟩ := ih (hseen.cons hrow ho) hchild hvisit' rfl
      exact ⟨last, .cons (hg.identity_ne hseen hrow ho hnot) hrequest hroute, hlast⟩
    · exact absurd hv (Value.not_within_document below scalar)

end

/-! ## nested blocks -/

/-- blocks of these names stand inside of each other, the first of them among the members -/
inductive Requested : List Member → List String → Prop
  | nil (members : List Member) : Requested members []
  | block {members children : List Member} {r : Relationship} {model : String}
      {names : List String} (h : .relationship r model children ∈ members)
      (hchildren : Requested children names) : Requested members (r.name :: names)

theorem requested_cons_iff {members : List Member} {name : String} {names : List String} :
    Requested members (name :: names) ↔ ∃ r model children,
      Member.relationship r model children ∈ members ∧ r.name = name ∧
        Requested children names := by
  constructor
  · intro h
    cases h with
    | block h hchildren => exact ⟨_, _, _, h, rfl, hchildren⟩
  · rintro ⟨r, model, children, h, rfl, hchildren⟩
    exact .block h hchildren

/-- a row for the last of some blocks that stand inside of each other -/
inductive StandsAt : List Member → List RowTree → List String → StoredRow → Prop
  | skip {a : Attribute} {f : Option Filter} {rest : List Member} {ts : List RowTree}
      {names : List String} {row : StoredRow} (h : StandsAt rest ts names row) :
      StandsAt (.attribute a f :: rest) ts names row
  | here (r : Relationship) (model : String) (children rest : List Member) (row : StoredRow)
      (inner ts : List RowTree) :
      StandsAt (.relationship r model children :: rest) (.node row inner :: ts) [r.name] row
  | inside {r : Relationship} {model : String} {children rest : List Member} {own row : StoredRow}
      {inner ts : List RowTree} {names : List String} (h : StandsAt children inner names row) :
      StandsAt (.relationship r model children :: rest) (.node own inner :: ts) (r.name :: names)
        row
  | later {r : Relationship} {model : String} {children rest : List Member} {t : RowTree}
      {ts : List RowTree} {names : List String} {row : StoredRow} (h : StandsAt rest ts names row) :
      StandsAt (.relationship r model children :: rest) (t :: ts) names row

theorem StandsAt.requested {members : List Member} {ts : List RowTree} {names : List String}
    {row : StoredRow} (h : StandsAt members ts names row) : Requested members names := by
  have hmono {m : Member} {rest : List Member} {names : List String}
      (h : Requested rest names) : Requested (m :: rest) names := by
    cases h with
    | nil => exact .nil _
    | block h hchildren => exact .block (List.mem_cons_of_mem _ h) hchildren
  induction h with
  | skip _ ih => exact hmono ih
  | here r model children rest row inner ts => exact .block List.mem_cons_self (.nil _)
  | inside _ ih => exact .block List.mem_cons_self ih
  | later _ ih => exact hmono ih

/-- the ends of a link stand at places one below the other -/
theorem Linked.standsAt {own : StoredRow} {members : List Member} {ts : List RowTree} {k : Link}
    (h : Linked own members ts k) :
    ∃ names, ((names = [] ∧ k.parent = own) ∨ StandsAt members ts names k.parent) ∧
      StandsAt members ts (names ++ [k.name]) k.child := by
  induction h with
  | skip _ ih =>
    obtain ⟨names, hparent, hchild⟩ := ih
    exact ⟨names, hparent.imp_right .skip, .skip hchild⟩
  | here own row r model children rest inner ts =>
    exact ⟨[], Or.inl ⟨rfl, rfl⟩, .here r model children rest row inner ts⟩
  | @inside own row r model children rest inner ts k _ ih =>
    obtain ⟨names, hparent, hchild⟩ := ih
    refine ⟨r.name :: names, Or.inr ?_, .inside hchild⟩
    rcases hparent with ⟨rfl, hp⟩ | hparent
    · rw [hp]
      exact .here r model children rest row inner ts
    · exact .inside hparent
  | later _ ih =>
    obtain ⟨names, hparent, hchild⟩ := ih
    exact ⟨names, hparent.imp_right .later, .later hchild⟩

section
variable (st : Store) (c : Coercions) (q : Query)

/-- a row that is bound at the end of some blocks, or at the root of the query -/
def Query.StandsAt (names : List String) (row : StoredRow) : Prop :=
  ∃ t, q.Matches st c t ∧
    ((names = [] ∧ row = t.row) ∨ NestedQuery.StandsAt q.children t.inner names row)

/-- every object is bound at one place of the query only -/
def Query.PlacedOnce : Prop :=
  ∀ names names' row row', q.StandsAt st c names row → q.StandsAt st c names' row' →
    st.schema.identity row = st.schema.identity row' → names = names'

end

section
variable {st : Store} {c : Coercions} {q : Query}

theorem Query.StandsAt.requested {names : List String} {row : StoredRow}
    (h : q.StandsAt st c names row) : Requested q.children names := by
  obtain ⟨t, -, ⟨rfl, -⟩ | h⟩ := h
  · exact .nil _
  · exact NestedQuery.StandsAt.requested h

variable (honce : q.PlacedOnce st c)
include honce

theorem Query.PlacedOnce.standsAt_child {names : List String} {row child : StoredRow}
    {name : String} (hrow : q.StandsAt st c names row) (h : q.Requests st c row name child) :
    q.StandsAt st c (names ++ [name]) child := by
  obtain ⟨k, ⟨t, ht, hk⟩, hi, rfl, rfl⟩ := h
  obtain ⟨names', hparent, hchild⟩ := hk.standsAt
  rw [honce names names' row k.parent hrow ⟨t, ht, hparent⟩ hi.symm]
  exact ⟨t, ht, Or.inr hchild⟩

/-- where every object has one place, a route leads along nested blocks -/
theorem Query.PlacedOnce.standsAt_route {seen : List StoredRow} {row last : StoredRow}
    {names below : List String} (h : q.Route st c seen row below last)
    (hrow : q.StandsAt st c names row) : q.StandsAt st c (names ++ below) last := by
  induction h generalizing names with
  | nil hnew =>
    rw [List.append_nil]
    exact hrow
  | cons hnew hrequest hrest ih =>
    rw [List.append_cons]
    exact ih (honce.standsAt_child hrow hrequest)

end

/-! ## documents of a text -/

/-- a field of a document is a scalar or requested for its object, to which the path of the field
leads as a route; where every object is bound at one place of the query, a requested field has
nested blocks in the query -/
theorem Database.document_requested {d : Database} {text : String} {doc : Json}
    (hs : d.schema.Built) (h : d.document text = .ok doc) :
    ∃ q items, Query.ofText d.schema text = .ok q ∧ doc = .array items ∧
      ∀ item ∈ items, ∃ t, q.Matches d.store d.coercions t ∧
        ∀ names fields name w, item.Path names (.object fields) → (name, w) ∈ fields →
          ∃ last, q.Route d.store d.coercions [] t.row names last ∧
            ((∃ child, q.Requests d.store d.coercions last name child ∧
                (q.PlacedOnce d.store d.coercions → Requested q.children (names ++ [name]))) ∨
              d.schema.ScalarOf last name w) := by
  obtain ⟨g, hgraph, hdoc⟩ := bind_eq_ok.mp h
  obtain ⟨p, hplan, hsubmit⟩ := bind_eq_ok.mp hgraph
  obtain ⟨q, hq, hp⟩ := bind_eq_ok.mp hplan
  obtain ⟨items, hitems, rfl⟩ := map_eq_ok.mp hdoc
  have hr := Query.resolved_of_ofText hs.sound hq
  -- the graph that the document was made of is the one whose objects are known
  obtain ⟨g', slot, hsubmit', hg⟩ := Query.exists_populates hs.sound hr hp
  rw [hsubmit] at hsubmit'
  cases hsubmit'
  refine ⟨q, items, hq, rfl, fun item hitem => ?_⟩
  obtain ⟨n, hn, hvisit⟩ := mem_visitAll hitems hitem
  obtain ⟨t, ht, rfl⟩ := (hg.roots n).mp hn
  refine ⟨t, ht, fun names fields name w hpath hw => ?_⟩
  have hseen : OnPath d.store d.coercions q slot g [] [] := fun x hx => nomatch hx
  obtain ⟨last, hroute, hlast⟩ := hg.route_of_path hpath hseen ht.binds_row hvisit hw
  refine ⟨last, hroute, hlast.imp_left fun ⟨child, hrequest⟩ => ⟨child, hrequest, fun honce => ?_⟩⟩
  have hroot : q.StandsAt d.store d.coercions [] t.row := ⟨t, ht, Or.inl ⟨rfl, rfl⟩⟩
  exact (honce.standsAt_child (honce.standsAt_route hroute hroot) hrequest).requested

namespace Ring

def database : Database := ⟨store, .standard⟩

/-- every step with the one after it -/
def nextText : String := "query Step \x7b\n next \x7b\n \x7d\n\x7d"

/-- a step, and what its document has for the one after it -/
def stepDocument (id after : String) (next : List (String × Json)) : Json :=
  .object (("after", .string after) :: ("id", .string id) :: next)

/-- three steps from `a` on, the last of which leaves its next one out -/
def threeSteps (a b c : String) : Json :=
  stepDocument a b [("next", stepDocument b c [("next", stepDocument c a [])])]

def nextDocument : Json :=
  .array [threeSteps "a" "b" "c", threeSteps "b" "c" "a", threeSteps "c" "a" "b"]

theorem document_next : database.document nextText = .ok nextDocument := by cbv

/-- one block, without any members -/
def nextQuery : Query :=
  ⟨"Step", [.relationship ⟨"Step", "next", "Step", .one, "after", "id"⟩ "Step" []]⟩

theorem ofText_next : Query.ofText database.schema nextText = .ok nextQuery := by cbv

theorem not_requested : ¬ Requested nextQuery.children ["next", "next"] := by
  intro h
  obtain ⟨_, _, _, hblock, -, h⟩ := requested_cons_iff.mp h
  cases List.mem_singleton.mp hblock
  obtain ⟨_, _, _, hblock, -⟩ := requested_cons_iff.mp h
  cases hblock

/-- a path of two relationships in a document, of which the query has a block for the first one
only: as a root, the second step has its next one loaded -/
theorem document_beyond :
    database.schema.Built ∧ database.document nextText = .ok nextDocument ∧
      Query.ofText database.schema nextText = .ok nextQuery ∧
      database.schema.attribute? "Step" "next" = none ∧
      ∃ items item fields w, nextDocument = .array items ∧ item ∈ items ∧
        item.Path ["next"] (.object fields) ∧ ("next", w) ∈ fields ∧
        ¬ Requested nextQuery.children (["next"] ++ ["next"]) := by
  let fields : List (String × Json) :=
    [("after", .string "c"), ("id", .string "b"), ("next", stepDocument "c" "a" [])]
  have hlast {x y z : String × Json} : z ∈ [x, y, z] :=
    List.mem_cons_of_mem _ (List.mem_cons_of_mem _ List.mem_cons_self)
  exact ⟨built_store, document_next, ofText_next, by cbv, _, threeSteps "a" "b" "c", fields,
    stepDocument "c" "a" [], rfl, List.mem_cons_self, .cons hlast .self (.nil _), hlast,
    not_requested⟩

/-! ### objects at one place each -/

/-- the step `a` with the one after it -/
def firstText : String := "query Step \x7b\n id [* == 'a']\n next \x7b\n \x7d\n\x7d"

def firstQuery : Query :=
  ⟨"Step", [.attribute ⟨"Step", "id", .string⟩ (some (.term ⟨.star, .eq, .string "a"⟩)),
    .relationship ⟨"Step", "next", "Step", .one, "after", "id"⟩ "Step" []]⟩

theorem ofText_first : Query.ofText store.schema firstText = .ok firstQuery := by cbv

def firstPlan : Plan :=
  (Plan.ofQuery schema .standard firstQuery).toOption.getD ⟨"", ⟨"", 0⟩, []⟩

theorem ofQuery_first : Plan.ofQuery store.schema .standard firstQuery = .ok firstPlan := by cbv

def firstDocument : Json := .array [stepDocument "a" "b" [("next", stepDocument "b" "c" [])]]

theorem document_first : database.document firstText = .ok firstDocument := by cbv

def stepA : StoredRow := ⟨"Step", 0, (step "a" "b").2⟩

def stepB : StoredRow := ⟨"Step", 1, (step "b" "c").2⟩

theorem kept_first : firstQuery.kept store firstPlan = [.node stepA [.node stepB []]] := by cbv

theorem standsAt_first {names : List String} {row : StoredRow}
    (h : firstQuery.StandsAt store .standard names row) :
    (names = [] ∧ row = stepA) ∨ (names = ["next"] ∧ row = stepB) := by
  have hr := Query.resolved_of_ofText built_store.sound ofText_first
  obtain ⟨t, ht, h⟩ := h
  have hkept := (Query.mem_kept_iff hr ofQuery_first).mpr ht
  rw [kept_first] at hkept
  cases List.mem_singleton.mp hkept
  rcases h with ⟨rfl, rfl⟩ | h
  · exact .inl ⟨rfl, rfl⟩
  · cases h with
    | skip h =>
      cases h with
      | here => exact .inr ⟨rfl, rfl⟩
      | inside h => cases h
      | later h => cases h

theorem placedOnce_first : firstQuery.PlacedOnce store .standard := by
  have hA : store.schema.identity stepA = .keyed "Step" "a" := by cbv
  have hB : store.schema.identity stepB = .keyed "Step" "b" := by cbv
  intro names names' row row' h h' hsame
  rcases standsAt_first h with ⟨rfl, rfl⟩ | ⟨rfl, rfl⟩
  · rcases standsAt_first h' with ⟨rfl, rfl⟩ | ⟨rfl, rfl⟩
    · rfl
    · rw [hA, hB] at hsame
      exact absurd hsame (by decide)
  · rcases standsAt_first h' with ⟨rfl, rfl⟩ | ⟨rfl, rfl⟩
    · rw [hA, hB] at hsame
      exact absurd hsame (by decide)
    · rfl

/-- the documents of three roots, and those of one root whose objects have one place each -/
theorem document_requested_ring :
    database.schema.Built ∧ database.document nextText = .ok nextDocument ∧
      (∃ q items, Query.ofText database.schema nextText = .ok q ∧ nextDocument = .array items ∧
        ∀ item ∈ items, ∃ t, q.Matches database.store database.coercions t ∧
          ∀ names fields name w, item.Path names (.object fields) → (name, w) ∈ fields →
            ∃ last, q.Route database.store database.coercions [] t.row names last ∧
              ((∃ child, q.Requests database.store database.coercions last name child ∧
                  (q.PlacedOnce database.store database.coercions →
                    Requested q.children (names ++ [name]))) ∨
                database.schema.ScalarOf last name w)) ∧
      firstQuery.PlacedOnce store .standard ∧
      database.document firstText = .ok firstDocument ∧
      ∃ items, firstDocument = .array items ∧ ∀ item ∈ items, ∀ names fields name w,
        item.Path names (.object fields) → (name, w) ∈ fields →
          Requested firstQuery.children (names ++ [name]) ∨
            ∃ last, database.schema.ScalarOf last name w := by
  refine ⟨built_store, document_next, Database.document_requested built_store document_next,
    placedOnce_first, document_first, ?_⟩
  obtain ⟨q, items, hq, hitems, hrequested⟩ :=
    Database.document_requested (d := database) built_store document_first
  cases ofText_first.symm.trans hq
  refine ⟨items, hitems, fun item hitem names fields name w hpath hw => ?_⟩
  obtain ⟨t, -, hfields⟩ := hrequested item hitem
  obtain ⟨last, -, ⟨child, -, honce⟩ | hscalar⟩ := hfields names fields name w hpath hw
  · exact .inl (honce placedOnce_first)
  · exact .inr ⟨last, hscalar⟩

end Ring

end NestedQuery
