import NestedQuery.Proofs.Plan.Terms
import NestedQuery.Proofs.Store.Joining

/-!
# What the filters of a plan keep

A filter of a block becomes a predicate over aliases, in which `all` is rewritten to the absence of
a related row for the negated comparison.  Where a binding knows the rows around the block, the
predicate has the truth that the filter has by its own reading.

* `Comparison.truth_negate`    a negated comparison has the negated truth;
* `Binding.Sees`               the aliases of a scope are bound to the rows of a site;
* `Scope.truth_predicate`      the predicate of a filter has the truth of the filter;
* `Planned.truth_filters`      the filters of a block's members are all true of matching rows only;
* `Store.filterAll_eq`         the filters of a plan keep the bindings of which all are true;
* `Query.mem_kept_iff`         what is kept are the matching rows;
* `Store.bindings_eq`          the bindings that a plan keeps are those of what is kept.
-/

namespace NestedQuery

/-- a negated comparison has the negated truth, so that it is unknown where the other one is -/
theorem Comparison.truth_negate (op : Comparison) (a b : Value) :
    op.negate.truth a b = Truth.not (op.truth a b) := by
  have hsuits (p q : Comparison) (h : ∀ o, p.suits o = !q.suits o) :
      (a.compare? b).map p.suits = Truth.not ((a.compare? b).map q.suits) := by
    rw [Truth.not, Option.map_map]
    exact congrArg (Option.map · _) (funext h)
  cases op with
  | eq => exact hsuits .ne .eq fun o => rfl
  | ne => exact hsuits .eq .ne fun o => (Bool.not_not _).symm
  | gt => exact hsuits .le .gt fun o => rfl
  | lt => exact hsuits .ge .lt fun o => rfl
  | ge => exact hsuits .lt .ge fun o => (Bool.not_not _).symm
  | le => exact hsuits .gt .le fun o => (Bool.not_not _).symm
  | isIn => rfl
  | notIn => exact (Truth.not_not _).symm

/-- that no row makes the negation of a comparison true means that the comparison is false of
none -/
theorem not_any_negate (op : Comparison) (v : Value) (column : String) (rows : List StoredRow) :
    (!rows.any fun row => op.negate.truth (row.value column) v == some true) =
      rows.all fun row => op.truth (row.value column) v != some false := by
  rw [List.not_any_eq_all_not]
  refine congrArg rows.all (funext fun row => ?_)
  rw [Comparison.truth_negate]
  rcases op.truth (row.value column) v with _ | _ | _ <;> rfl

/-! ## scopes and sites -/

/-- the aliases of a scope are bound to the rows of a site -/
inductive Binding.Sees (st : Store) (b : Binding) : Scope → Site → Prop
  | root {scope : Scope} {own : StoredRow} (hown : b.row scope.bound = .ok own)
      (h : scope.enclosing = none) : Sees st b scope ⟨own, none⟩
  | block {scope : Scope} {r : Relationship} {model : String} {m : Model} {parent : Alias}
      {own row : StoredRow} (hown : b.row scope.bound = .ok own) (hrow : b.row parent = .ok row)
      (hm : st.schema.model? model = some m)
      (h : scope.enclosing = some ({ r with target := model }, parent)) :
      Sees st b scope ⟨own, some (r, model, row)⟩

section
variable {st : Store} {c : Coercions} {b : Binding} {scope : Scope} {site : Site}

theorem Binding.Sees.own (h : b.Sees st scope site) : b.row scope.bound = .ok site.own := by
  cases h with
  | root hown h => exact hown
  | block hown hrow hm h => exact hown

/-- a relationship leads to the rows that a block might be joined with -/
theorem Binding.relatedTo_eq {parent : Alias} {row : StoredRow} (hrow : b.row parent = .ok row)
    {model : String} {m : Model} (hm : st.schema.model? model = some m) (r : Relationship) :
    st.relatedTo b parent { r with target := model } model = .ok (st.joined r model row) := by
  rw [Store.relatedTo, hrow, bind_ok]
  exact Store.related_eq hm

/-- a quantified selector ranges over the peers of the block's row -/
theorem Binding.Sees.relatedTo (h : b.Sees st scope site) {r : Relationship} {parent : Alias}
    (he : scope.enclosing = some (r, parent)) :
    st.relatedTo b parent r r.target = .ok (site.peers st) := by
  cases h with
  | root _ h => cases h.symm.trans he
  | block _ hrow hm h =>
    cases h.symm.trans he
    exact Binding.relatedTo_eq hrow hm _

theorem Scope.truth_termPredicate {a : Attribute} {t : Term} {p : Predicate}
    (h : scope.termPredicate c a t = .ok p) (hb : b.Sees st scope site) :
    p.truth st b none = .ok (t.truth st c a site) := by
  obtain ⟨selector, operator, literal⟩ := t
  obtain ⟨v, read, hv, hread, rfl⟩ := termPredicate_eq_ok_iff.mp h
  rw [Term.truth, hv]
  cases hread with
  | star _ =>
    rw [truth_own, hb.own]
    rfl
  | any he _ =>
    rw [truth_existing, hb.relatedTo he]
    rfl
  | all he _ =>
    rw [Predicate.truth, truth_existing, hb.relatedTo he]
    exact congrArg (fun x => Except.ok (some x)) (not_any_negate _ v a.name _)

/-- the predicate of a filter has the truth of the filter -/
theorem Scope.truth_predicate {a : Attribute} {f : Filter} {p : Predicate}
    (h : scope.predicate c a f = .ok p) (hb : b.Sees st scope site) :
    p.truth st b none = .ok (f.truth st c a site) := by
  induction f generalizing p with
  | term t => exact truth_termPredicate h hb
  | joined op left right ihl ihr =>
    obtain ⟨l, hl, h⟩ := bind_eq_ok.mp h
    obtain ⟨r, hr, he⟩ := map_eq_ok.mp h
    cases he
    rw [truth_joinPredicates, ihl hl, bind_ok, ihr hr, map_ok]
    cases op <;> rfl

/-! ## the filters of a query -/

theorem Binding.Sees.inner (h : b.Sees st scope site) {r : Relationship} {model : String}
    {m : Model} {n : Nat} {row : StoredRow} (hm : st.schema.model? model = some m)
    (hrow : b.lookup n = some row) :
    b.Sees st (scope.inner r ⟨model, n⟩) ⟨row, some (r, model, site.own)⟩ :=
  .block (Binding.row_eq_ok_iff.mpr hrow) h.own hm rfl

/-- the filters of a block's members have truths, and all are true of matching rows only -/
theorem Planned.truth_filters {n k : Nat} {members : List Member} {ds : List Directive}
    (h : Planned st.schema c scope n members ds k) (hb : b.Sees st scope site)
    {ts : List RowTree} (hts : ts ∈ blockTrees st site.own members)
    (hrows : b.Holds n (RowTree.rowsAll ts)) :
    (∀ p ∈ filtersOf ds, ∃ t, p.truth st b none = .ok t) ∧
      (Matches st c site members ts ↔
        ∀ p ∈ filtersOf ds, p.truth st b none = .ok (some true)) := by
  induction h generalizing site ts with
  | nil scope n =>
    cases List.mem_singleton.mp hts
    exact ⟨List.forall_mem_nil _, fun _ => List.forall_mem_nil _, fun _ => .nil site⟩
  | bare hrest ih =>
    rw [blockTrees_attribute] at hts
    obtain ⟨hok, hiff⟩ := ih hb hts hrows
    refine ⟨hok, fun h => ?_, fun h => .bare (hiff.mpr h)⟩
    cases h with
    | bare h => exact hiff.mp h
  | @filtered scope n k a f p rest ds hp hrest ih =>
    rw [blockTrees_attribute] at hts
    obtain ⟨hok, hiff⟩ := ih hb hts hrows
    have htruth := Scope.truth_predicate hp hb
    rw [filtersOf_filter, List.forall_mem_cons, List.forall_mem_cons, htruth]
    refine ⟨⟨⟨_, rfl⟩, hok⟩, fun h => ?_, fun h => ?_⟩
    · cases h with
      | filtered hf h => exact ⟨congrArg Except.ok hf, hiff.mp h⟩
    · exact .filtered (Except.ok.inj h.1) (hiff.mpr h.2)
  | @block scope n m k r model children rest inner others hr hmodel hinner hothers ihc ih =>
    obtain ⟨row, below, after, rfl, hrow, hbelow, hafter, hhead, hleft, hright⟩ :=
      hinner.holds_block hts hrows
    obtain ⟨mm, hmm, -⟩ := Schema.isVariantOf_iff.mp hmodel
    -- members of the block see its own row, and those after it the row around it
    obtain ⟨hokc, hiffc⟩ := ihc (hb.inner hmm hhead) hbelow hleft
    obtain ⟨hok, hiff⟩ := ih hb hafter hright
    rw [filtersOf_block, List.forall_mem_append, List.forall_mem_append]
    refine ⟨⟨hokc, hok⟩, fun h => ?_, fun h => .block hrow (hiffc.mpr h.1) (hiff.mpr h.2)⟩
    cases h with
    | block _ hc ho => exact ⟨hiffc.mp hc, hiff.mp ho⟩

end

theorem Matches.mem_blockTrees {st : Store} {c : Coercions} {site : Site} {members : List Member}
    {ts : List RowTree} (h : Matches st c site members ts) :
    ts ∈ blockTrees st site.own members := by
  induction h with
  | nil site => exact List.mem_singleton_self _
  | bare _ ih =>
    rw [blockTrees_attribute]
    exact ih
  | filtered _ _ ih =>
    rw [blockTrees_attribute]
    exact ih
  | block hrow _ _ ihc ih =>
    exact mem_blockTrees_relationship.mpr ⟨_, _, _, hrow, ihc, ih, rfl⟩

/-! ## filters in general -/

/-- whether a predicate is definitely true under a binding -/
def Predicate.holds (st : Store) (b : Binding) (p : Predicate) : Bool :=
  match p.truth st b none with
  | .ok (some true) => true
  | _ => false

theorem Predicate.holds_iff {st : Store} {b : Binding} {p : Predicate} :
    p.holds st b = true ↔ p.truth st b none = .ok (some true) := by
  unfold holds
  split
  · rename_i h
    rw [h]
    exact ⟨fun _ => rfl, fun _ => rfl⟩
  · rename_i h
    exact ⟨fun he => (nomatch he), fun he => absurd he h⟩

namespace Store
variable {st : Store}

theorem filter_eq {p : Predicate} {bs : List Binding}
    (h : ∀ b ∈ bs, ∃ t, p.truth st b none = .ok t) :
    st.filter p bs = .ok (bs.filter fun b => p.holds st b) := by
  induction bs with
  | nil => rfl
  | cons b rest ih =>
    obtain ⟨⟨t, ht⟩, hrest⟩ := List.forall_mem_cons.mp h
    show (p.truth st b none).bind _ = _
    rw [ht, bind_ok, ih hrest, map_ok, List.filter_cons]
    refine congrArg Except.ok (if_congr ?_ rfl rfl)
    rw [Predicate.holds_iff, ht, Except.ok.injEq]

/-- the filters of a plan keep the bindings of which all are true -/
theorem filterAll_eq {ps : List Predicate} {bs : List Binding}
    (h : ∀ b ∈ bs, ∀ p ∈ ps, ∃ t, p.truth st b none = .ok t) :
    st.filterAll ps bs = .ok (bs.filter fun b => ps.all fun p => p.holds st b) := by
  induction ps generalizing bs with
  | nil => exact congrArg Except.ok (List.filter_true bs).symm
  | cons p ps ih =>
    show (st.filter p bs).bind (st.filterAll ps) = _
    rw [filter_eq fun b hb => (h b hb) p List.mem_cons_self, bind_ok, ih, List.filter_filter]
    · refine congrArg (fun f => Except.ok (bs.filter f)) (funext fun b => ?_)
      rw [List.all_cons, Bool.and_comm]
    · intro b hb q hq
      exact h b (List.mem_of_mem_filter hb) q (List.mem_cons_of_mem _ hq)

end Store

/-! ## the bindings of a plan -/

section
variable {st : Store} {c : Coercions} {q : Query} {p : Plan}

/-- joined rows that pass the filters of a plan -/
def Query.kept (st : Store) (p : Plan) (q : Query) : List RowTree :=
  (q.trees st).filter fun t => p.filters.all fun f => f.holds st t.binding

/-- every filter of a plan has a truth for joined rows, and all are true of matching rows only -/
theorem Query.truth_filters (hq : q.Resolved st.schema)
    (hp : Plan.ofQuery st.schema c q = .ok p) {t : RowTree} (ht : t ∈ q.trees st) :
    (∀ f ∈ p.filters, ∃ x, f.truth st t.binding none = .ok x) ∧
      (q.Matches st c t ↔ ∀ f ∈ p.filters, f.truth st t.binding none = .ok (some true)) := by
  obtain ⟨ds, k, rfl, hds, hroot, hinner, hrow, hrows⟩ := planned_tree hq hp ht
  have hsees : t.binding.Sees st (.root q.model) ⟨t.row, none⟩ := .root hrow rfl
  obtain ⟨hok, hiff⟩ := hds.truth_filters hsees hinner hrows
  exact ⟨hok, fun h => hiff.mp h.members, fun h => ⟨hroot, hiff.mpr h⟩⟩

theorem Query.Matches.mem_trees {t : RowTree} (h : q.Matches st c t) : t ∈ q.trees st :=
  Query.mem_trees_iff.mpr ⟨h.root, h.members.mem_blockTrees⟩

theorem Query.mem_kept_iff (hq : q.Resolved st.schema) (hp : Plan.ofQuery st.schema c q = .ok p)
    {t : RowTree} : t ∈ q.kept st p ↔ q.Matches st c t := by
  rw [kept, List.mem_filter, List.all_eq_true]
  constructor
  · rintro ⟨ht, h⟩
    refine (truth_filters hq hp ht).2.mpr fun f hf => ?_
    exact Predicate.holds_iff.mp (h f hf)
  · intro h
    refine ⟨h.mem_trees, fun f hf => Predicate.holds_iff.mpr ?_⟩
    exact (truth_filters hq hp h.mem_trees).2.mp h f hf

/-- the joins of a plan bind the rows that are joined with each other -/
theorem Query.joined_eq (hq : q.Resolved st.schema) (hp : Plan.ofQuery st.schema c q = .ok p) :
    ∃ bs, st.rootBindings p.root = .ok bs ∧
      st.joinAll p.joins bs = .ok ((q.trees st).map RowTree.binding) := by
  obtain ⟨m, hm⟩ := hq.root
  obtain ⟨ds, k, rfl, hds⟩ := planned_of_ofQuery hq hp
  refine ⟨(st.rows q.model).map fun row => [(0, row)], ?_, ?_⟩
  · rw [Store.rootBindings, Store.scan_eq hm, map_ok]
  · rw [Plan.joins_eq, Query.trees, List.map_flatMap]
    refine Store.joinAll_map fun row _ => ?_
    have hrow : Binding.row [(0, row)] (Scope.root q.model).bound = .ok row := rfl
    rw [hds.joinAll hrow Nat.zero_lt_one, List.map_map]
    rfl

/-- no filter of a plan fails for joined rows -/
theorem Query.truth_joined (hq : q.Resolved st.schema) (hp : Plan.ofQuery st.schema c q = .ok p) :
    ∀ b ∈ (q.trees st).map RowTree.binding, ∀ f ∈ p.filters, ∃ x, f.truth st b none = .ok x := by
  intro b hb f hf
  obtain ⟨t, ht, rfl⟩ := List.mem_map.mp hb
  exact (truth_filters hq hp ht).1 f hf

/-- the bindings that a plan keeps are those of the matching rows, in the order of the joins -/
theorem Store.bindings_eq (hq : q.Resolved st.schema)
    (hp : Plan.ofQuery st.schema c q = .ok p) :
    st.bindings p = .ok ((q.kept st p).map RowTree.binding) := by
  obtain ⟨bs, hroot, hjoined⟩ := Query.joined_eq hq hp
  rw [Store.bindings, hroot, bind_ok, hjoined, bind_ok, Store.filterAll_eq (Query.truth_joined hq hp),
    List.filter_map]
  rfl

end

end NestedQuery
