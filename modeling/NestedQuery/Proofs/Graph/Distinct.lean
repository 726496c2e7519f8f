import NestedQuery.Proofs.Graph.Records
import NestedQuery.Proofs.Graph.Walk

/-!
# Objects and their identities

A loading has one object for each identity of a row, and a document leaves out what has the identity
of an object above it.  The two kinds of identities are computed apart from each other; here they
are shown to tell the same objects apart, in the graphs of all plans on all stores.

* `RowIdentity.inSlot`       what the identity of a row says of its object in a slot;
* `Loading.Interned`         distinct rows, each with its own object, which every step keeps;
* `Graph.Distinct`           different slots have different identities;
* `Graph.visitSlots`         what becomes of a slot below a path of slots, without identities;
* `Store.submit_distinct`    the graph of any plan is distinct, and is written by slots alone.
-/

namespace NestedQuery

/-! ## identities of rows and of objects -/

/-- the identity of an object that was loaded for rows of an identity -/
def RowIdentity.inSlot (slot : Nat) : RowIdentity → Identity
  | keyed model key => .assigned model key
  | placed model _ => .unassigned model slot

theorem RowIdentity.inSlot_inj {i j : RowIdentity} {m n : Nat} (h : i.inSlot m = j.inSlot n) :
    i = j ∨ m = n := by
  cases i with
  | keyed model key =>
    cases j with
    | keyed model' key' =>
      cases h
      exact .inl rfl
    | placed => cases h
  | placed model place =>
    cases j with
    | keyed => cases h
    | placed model' place' =>
      cases h
      exact .inr rfl

theorem Identity.of_ofRow (m : Model) (r : StoredRow) (slot : Nat) :
    Identity.of (.ofRow m r) slot = (RowIdentity.of m r).inSlot slot := by
  have hkey : (Object.ofRow m r).key.bind keyText? = keyText? (Store.keyOf m r.row) := rfl
  rw [Identity.of, hkey, RowIdentity.of]
  cases keyText? (Store.keyOf m r.row) <;> rfl

/-! ## loading -/

namespace Loading

/-- the identities of the rows are distinct, and each object has that of its row -/
structure Interned (l : Loading) : Prop where
  nodup : l.identities.Nodup
  identity : ∀ e ∈ l.objects, ∀ slot, Identity.of e.2 slot = e.1.inSlot slot

theorem interned_empty : empty.Interned := ⟨List.nodup_nil, nofun⟩

namespace Interned
variable {s : Schema} {l l' : Loading} (h : l.Interned)
include h

theorem grow {r : StoredRow} {m : Model} (hm : s.model? r.model = some m)
    (hr : s.identity r ∉ l.identities) : (l.grow s m r).Interned where
  nodup := by
    rw [identities_grow, ← List.concat_eq_append]
    exact h.nodup.concat hr
  identity := forall_mem_concat_iff.mpr
    ⟨h.identity, fun slot => (Identity.of_ofRow m r slot).trans (by rw [Schema.identity_eq hm])⟩

theorem place {r : StoredRow} {slot : Nat} (hplace : l.place s r = .ok (slot, l')) :
    l'.Interned := by
  obtain ⟨m, hm, -⟩ := map_eq_ok.mp hplace
  rw [Schema.modelNamed_ok_iff] at hm
  by_cases hr : s.identity r ∈ l.identities
  · rw [place_of_mem hm hr] at hplace
    cases hplace
    exact h
  · rw [place_of_notMem hm hr] at hplace
    cases hplace
    exact h.grow hm hr

theorem addRoot (slot : Nat) : (l.addRoot slot).Interned := by
  unfold Loading.addRoot
  split
  · exact h
  · exact ⟨h.nodup, h.identity⟩

theorem attach {parent : StoredRow} {parentSlot slot : Nat} {name : String}
    (hattach : l.attach s parent parentSlot name slot = .ok l') : l'.Interned := by
  obtain ⟨rel, -, rfl⟩ := map_eq_ok.mp hattach
  constructor
  · rw [identities_modify l parentSlot fun o => o.attach name rel.cardinality slot]
    exact h.nodup
  · intro e he n
    obtain ⟨k, hk⟩ := List.getElem?_of_mem he
    rw [List.getElem?_modify] at hk
    obtain ⟨e₀, he₀, rfl⟩ := Option.map_eq_some_iff.mp hk
    have hid := h.identity e₀ (List.mem_of_getElem? he₀) n
    -- what is attached is neither in the model nor in the key
    split
    · exact hid
    · exact hid

theorem followChain {b : Binding} {parent : StoredRow} {slot : Nat} {chain : List Hop}
    (hchain : l.followChain s b parent slot chain = .ok l') : l'.Interned := by
  induction chain generalizing l parent slot with
  | nil =>
    cases hchain
    exact h
  | cons hop rest ih =>
    obtain ⟨child, -, hchain⟩ := bind_eq_ok.mp hchain
    obtain ⟨⟨n, l₁⟩, hplace, hchain⟩ := bind_eq_ok.mp hchain
    obtain ⟨l₂, hattach, hchain⟩ := bind_eq_ok.mp hchain
    exact ih ((h.place hplace).attach hattach) hchain

theorem followChains {b : Binding} {root : StoredRow} {slot : Nat} {chains : List (List Hop)}
    (hchains : followChains s b root slot l chains = .ok l') : l'.Interned := by
  induction chains generalizing l with
  | nil =>
    cases hchains
    exact h
  | cons chain rest ih =>
    obtain ⟨l₁, hchain, hrest⟩ := bind_eq_ok.mp hchains
    exact ih (h.followChain hchain) hrest

theorem addBinding {p : Plan} {b : Binding} (hadd : l.addBinding s p b = .ok l') :
    l'.Interned := by
  obtain ⟨root, -, hadd⟩ := bind_eq_ok.mp hadd
  obtain ⟨⟨slot, l₁⟩, hplace, hadd⟩ := bind_eq_ok.mp hadd
  exact ((h.place hplace).addRoot slot).followChains hadd

theorem addBindings {p : Plan} {bs : List Binding} (hadd : l.addBindings s p bs = .ok l') :
    l'.Interned := by
  induction bs generalizing l with
  | nil =>
    cases hadd
    exact h
  | cons b rest ih =>
    obtain ⟨l₁, hfirst, hrest⟩ := bind_eq_ok.mp hadd
    exact ih (h.addBinding hfirst) hrest

end Interned

end Loading

/-! ## graphs -/

namespace Graph

/-- objects of one identity are in one slot -/
def Distinct (g : Graph) : Prop :=
  ∀ i j o o', g.object? i = some o → g.object? j = some o' →
    Identity.of o i = Identity.of o' j → i = j

end Graph

theorem Loading.Interned.distinct {l : Loading} (h : l.Interned) : l.graph.Distinct := by
  intro i j o o' ho ho' hij
  have hentry {n : Nat} {x : Object} (hx : l.graph.object? n = some x) :
      ∃ e, l.identities[n]? = some e ∧ Identity.of x n = e.inSlot n := by
    have hx : (l.objects.map (·.2))[n]? = some x := hx
    rw [List.getElem?_map] at hx
    obtain ⟨e, he, rfl⟩ := Option.map_eq_some_iff.mp hx
    refine ⟨e.1, ?_, h.identity e (List.mem_of_getElem? he) n⟩
    rw [identities, List.getElem?_map, he]
    rfl
  obtain ⟨e, he, hi⟩ := hentry ho
  obtain ⟨e', he', hj⟩ := hentry ho'
  rw [hi, hj] at hij
  rcases RowIdentity.inSlot_inj hij with rfl | hij
  · -- rows of one identity have one object
    have hlt := (List.getElem?_eq_some_iff.mp he).1
    exact (List.getElem?_inj hlt h.nodup).mp (he.trans he'.symm)
  · exact hij

theorem Store.distinct_of_submit {st : Store} {p : Plan} {g : Graph} (h : st.submit p = .ok g) :
    g.Distinct := by
  obtain ⟨m, -, h⟩ := bind_eq_ok.mp h
  obtain ⟨u, -, h⟩ := bind_eq_ok.mp h
  obtain ⟨bs, -, h⟩ := bind_eq_ok.mp h
  obtain ⟨l, hl, rfl⟩ := map_eq_ok.mp h
  exact (Loading.interned_empty.addBindings hl).distinct

/-! ## paths of slots -/

namespace Graph
variable {g : Graph}

/-- the number of slots that are not on a path -/
def slotsOff (g : Graph) (path : List Nat) : Nat :=
  (List.range g.size).countP fun n => !path.contains n

theorem slotsOff_cons_lt {slot : Nat} {o : Object} {path : List Nat}
    (ho : g.object? slot = some o) (hp : slot ∉ path) :
    g.slotsOff (slot :: path) < g.slotsOff path := by
  have hlt : slot < g.size := (List.getElem?_eq_some_iff.mp ho).1
  refine countP_lt_of_imp (fun n hn => ?_) (List.mem_range.mpr hlt) ?_ ?_
  · rw [List.contains_cons, Bool.not_or, Bool.and_eq_true] at hn
    exact hn.2
  · rw [List.contains_cons, beq_self_eq_true, Bool.true_or, Bool.not_true]
  · rw [Bool.not_eq_true', List.contains_eq_mem, decide_eq_false hp]

/-- the document of the object in a slot below the slots of a path; `none` if the slot is one of
them -/
def visitSlots (g : Graph) (path : List Nat) (slot : Nat) : Except Error (Option Json) :=
  match _h : g.object? slot with
  | none => .error (.danglingSlot slot)
  | some o =>
    if _hp : slot ∈ path then .ok none
    else (o.document (g.visitSlots (slot :: path))).map some
termination_by g.slotsOff path
decreasing_by exact slotsOff_cons_lt _h _hp

/-- the roots, each at the start of a path of slots -/
def documentBySlots (g : Graph) : Except Error Json :=
  (visitAll (g.visitSlots []) g.roots).map .array

/-- the identity of the object in a slot -/
def identity? (g : Graph) (slot : Nat) : Option Identity :=
  (g.object? slot).map fun o => .of o slot

theorem identity?_of_some {slot : Nat} {o : Object} (ho : g.object? slot = some o) :
    g.identity? slot = some (.of o slot) := by
  rw [identity?, ho]
  rfl

variable (hg : g.Distinct)
include hg

theorem Distinct.mem_identities_iff {path : List Nat} {slot : Nat} {o : Object}
    (ho : g.object? slot = some o) :
    Identity.of o slot ∈ path.filterMap g.identity? ↔ slot ∈ path := by
  rw [List.mem_filterMap]
  constructor
  · rintro ⟨n, hn, hid⟩
    obtain ⟨o', ho', hid⟩ := Option.map_eq_some_iff.mp hid
    exact hg n slot o' o ho' ho hid ▸ hn
  · intro hslot
    exact ⟨slot, hslot, identity?_of_some ho⟩

/-- the induction is on the number of slots off the path, as the walk by slots goes -/
theorem Distinct.visit_eq (path : List Nat) (slot : Nat) :
    g.visit (path.filterMap g.identity?) slot = g.visitSlots path slot := by
  obtain ⟨k, hk⟩ : ∃ k, g.slotsOff path = k := ⟨_, rfl⟩
  induction k using Nat.strongRecOn generalizing path slot with
  | ind k ih =>
    subst hk
    rw [visitSlots]
    split
    · rename_i ho
      exact visit_of_dangling ho
    · rename_i o ho
      split
      · rename_i hslot
        exact visit_of_mem ho ((hg.mem_identities_iff ho).mpr hslot)
      · rename_i hslot
        have hbelow : g.visit (Identity.of o slot :: path.filterMap g.identity?) =
            g.visitSlots (slot :: path) := by
          funext n
          rw [← ih _ (slotsOff_cons_lt ho hslot) (slot :: path) n rfl,
            List.filterMap_cons_some (identity?_of_some ho)]
        rw [visit_of_notMem ho (mt (hg.mem_identities_iff ho).mp hslot), hbelow]

theorem Distinct.keeps_walkTarget (path : List Nat) (slot : Nat) :
    (g.walkTarget slot).Keeps (path.filterMap g.identity?).toFinset (g.visitSlots path slot) := by
  rw [← hg.visit_eq]
  exact g.keeps_walkTarget _ slot

theorem Distinct.serialize_eq : g.serialize = some g.documentBySlots := by
  have hvisit : g.visit [] = g.visitSlots [] := funext fun slot => hg.visit_eq [] slot
  rw [g.serialize_eq, document, documentBySlots, hvisit]

end Graph

/-- a step has one result -/
theorem Walk.Keeps.unique {α : Type} {w : Walk α} {seen : Finset Identity} {r r' : Except Error α}
    (h : w.Keeps seen r) (h' : w.Keeps seen r') : r = r' := by
  have hboth := Option.some.inj (h.symm.trans h')
  cases r with
  | error e => exact map_eq_error.mp hboth.symm ▸ rfl
  | ok a =>
    obtain ⟨a', ha', he⟩ := map_eq_ok.mp hboth.symm
    rw [ha', (Prod.mk.inj he).1]

/-- below a path the walk leaves out the object in a slot just where the slot is on the path -/
theorem Graph.Distinct.keeps_none_iff {g : Graph} (hg : g.Distinct) {path : List Nat} {slot : Nat}
    {o : Object} (ho : g.object? slot = some o) :
    (g.walkTarget slot).Keeps (path.filterMap g.identity?).toFinset (.ok none) ↔ slot ∈ path := by
  have hkeeps := g.keeps_walkTarget (path.filterMap g.identity?) slot
  rw [← hg.mem_identities_iff ho]
  constructor
  · intro h
    by_contra hslot
    rw [visit_of_notMem ho hslot] at hkeeps
    obtain ⟨j, -, hj⟩ := map_eq_ok.mp (hkeeps.unique h)
    cases hj
  · intro hslot
    rw [visit_of_mem ho hslot] at hkeeps
    exact hkeeps

/-- in the graph of any plan on any store, equal identities mean equal slots.  Hence the walk over
it leaves an object out just where its slot is on the path, so that it is the walk by slots. -/
theorem Store.submit_distinct {st : Store} {p : Plan} {g : Graph} (h : st.submit p = .ok g) :
    (∀ i j o o', g.object? i = some o → g.object? j = some o' →
      (Identity.of o i = Identity.of o' j ↔ i = j)) ∧
    (∀ (path : List Nat) slot o, g.object? slot = some o →
      ((g.walkTarget slot).Keeps (path.filterMap g.identity?).toFinset (.ok none) ↔
        slot ∈ path)) ∧
    (∀ path slot, (g.walkTarget slot).Keeps (path.filterMap g.identity?).toFinset
      (g.visitSlots path slot)) ∧
    g.serialize = some g.documentBySlots := by
  have hg := Store.distinct_of_submit h
  refine ⟨fun i j o o' ho ho' => ⟨hg i j o o' ho ho', ?_⟩,
    fun path slot o ho => hg.keeps_none_iff ho, hg.keeps_walkTarget, hg.serialize_eq⟩
  rintro rfl
  rw [Option.some.inj (ho.symm.trans ho')]

namespace Loops

/-- notes with at most one answer each, known by an author and a number -/
def declaration : Declaration :=
  (((((Declaration.named "Note").addAttribute "author" .string).addAttribute
    "number" .integer).addAttribute "answer" .integer).addKeyColumn "author").addKeyColumn "number"
    |>.addRelationship "answered" "Note" .one "answer" "number"

def schema : Schema := (Schema.ofDeclarations [declaration]).toOption.getD .empty

/-- a note of nobody -/
def first : Row := Dict.ofList [("number", .integer 1), ("answer", .integer 2)]

/-- a note that is its own answer -/
def second : Row :=
  Dict.ofList [("author", .string "a"), ("number", .integer 2), ("answer", .integer 2)]

def store : Store :=
  (((Store.empty schema).insert "Note" first).bind fun (st, _) =>
    (st.insert "Note" second).map (·.1)).toOption.getD (.empty schema)

def answered (parent bound : Nat) : Directive :=
  .join ⟨⟨"Note", bound⟩, ⟨"Note", parent⟩,
    ⟨"Note", "answered", "Note", .one, "answer", "number"⟩⟩

/-- no query gives this plan, whose chain goes to one alias twice -/
def plan : Plan :=
  ⟨"Note", ⟨"Note", 0⟩,
    [answered 0 1, .load [⟨"answered", ⟨"Note", 1⟩⟩, ⟨"answered", ⟨"Note", 1⟩⟩]]⟩

def graph : Graph := (store.submit plan).toOption.getD .empty

theorem submit_distinct_loops :
    store.submit plan = .ok graph ∧ graph.size = 2 ∧
      (∀ i j o o', graph.object? i = some o → graph.object? j = some o' →
        (Identity.of o i = Identity.of o' j ↔ i = j)) ∧
      graph.serialize = some graph.documentBySlots := by
  have hsubmit : store.submit plan = .ok graph := by cbv
  obtain ⟨hdistinct, -, -, hserialize⟩ := Store.submit_distinct hsubmit
  exact ⟨hsubmit, by cbv, hdistinct, hserialize⟩

end Loops

end NestedQuery
