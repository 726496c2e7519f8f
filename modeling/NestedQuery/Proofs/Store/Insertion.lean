import Mathlib
import NestedQuery.Proofs.Store.Rows

/-!
# Runs of insertions

An insertion reads the store and writes it in two steps: the last key of the tree of the model,
then the rows of the model.  `Store.perform` carries out these steps one after the other, and what
they wrote before a failure would stay written; it is `Store.insert` on a store that a refused
insertion leaves as it is.

* `Insertion`, `Store.perform`, `Store.run`   a row for a model, and insertions in a row;
* `Store.overflows`       some key that is assigned in a run exceeds the integers;
* `Store.Sequenced`       the last key of a tree bounds the integer keys of all rows in the tree;
* `Store.sequenced_run`   it does so after every run;
* `Store.Adds`            what an accepted insertion does to a store;
* `Store.perform_after_run`   every insertion after a run does just that, or nothing.

Only keys of one column are assigned.  The bound holds whether keys are given, missing or null,
because one last key is kept for a whole tree of variants.
-/

namespace NestedQuery

/-! ## keys -/

theorem le_max_int64 (a b : Int64) : a ≤ max a b ∧ b ≤ max a b := by
  show a ≤ (if a ≤ b then b else a) ∧ b ≤ if a ≤ b then b else a
  by_cases h : a ≤ b
  · rw [if_pos h]
    exact ⟨h, Int64.le_refl b⟩
  · rw [if_neg h]
    exact ⟨Int64.le_refl a, (Int64.le_total a b).resolve_left h⟩

theorem lt_add_one_int64 {a : Int64} (h : a ≠ Int64.maxValue) : a < a + 1 := by grind

/-- the key of a row has one column, which is missing or null -/
def Model.assigns (m : Model) (row : Row) : Bool :=
  match m.primaryKey with
  | [column] => (row.value column).isNull
  | _ => false

theorem Model.assigns_iff {m : Model} {row : Row} :
    m.assigns row = true ↔ ∃ column, m.primaryKey = [column] ∧ Row.value row column = .null := by
  unfold assigns
  split
  · rename_i column hkey
    rw [hkey, Value.isNull_iff]
    constructor
    · intro hv
      exact ⟨column, rfl, hv⟩
    · rintro ⟨column', hkey', hv⟩
      cases hkey'
      exact hv
  · rename_i hkey
    constructor
    · intro h
      cases h
    · rintro ⟨column, hkey', -⟩
      exact absurd hkey' (hkey column)

namespace Store

theorem keyed_of_assigns {m : Model} {row : Row} {column : String} (hkey : m.primaryKey = [column])
    (hv : Row.value row column = .null) (last : Int64) :
    keyed m last row = (row.insert column (.integer (last + 1)), last + 1) := by
  unfold keyed
  rw [hkey]
  simp only [hv]

/-- a key that is not assigned leaves the row, and the last key reaches it -/
theorem keyed_of_given {m : Model} {row : Row} (h : m.assigns row = false) (last : Int64) :
    (keyed m last row).1 = row ∧ last ≤ (keyed m last row).2 ∧
      ∀ column n, m.primaryKey = [column] → Row.value row column = .integer n →
        n ≤ (keyed m last row).2 := by
  unfold keyed
  split
  · rename_i column hkey
    split
    · rename_i n hv
      refine ⟨rfl, (le_max_int64 last n).1, ?_⟩
      intro column' n' hkey' hv'
      cases hkey.symm.trans hkey'
      cases hv.symm.trans hv'
      exact (le_max_int64 last n).2
    · rename_i hv
      have hassigns := Model.assigns_iff.mpr ⟨column, hkey, hv⟩
      rw [h] at hassigns
      cases hassigns
    · rename_i hinteger hnull
      refine ⟨rfl, Int64.le_refl last, ?_⟩
      intro column' n hkey' hv
      cases hkey.symm.trans hkey'
      exact absurd hv (hinteger n)
  · rename_i hkey
    refine ⟨rfl, Int64.le_refl last, ?_⟩
    intro column n hkey'
    exact absurd hkey' (hkey column)

end Store

/-! ## one insertion -/

/-- a row for a model -/
structure Insertion where
  model : String
  row : Row

namespace Store

def setLastKey (st : Store) (m : Model) (last : Int64) : Store :=
  { st with sequences := st.sequences.insert m.hierarchyRoot last }

def append (st : Store) (model : String) (row : Row) : Store :=
  { st with tables := st.tables.insert model (st.table model ++ [row]) }

theorem table_append (st : Store) (model n : String) (row : Row) :
    (st.append model row).table n = if n = model then st.table n ++ [row] else st.table n := by
  unfold table append
  rw [Dict.get?_insert]
  split
  · rename_i h
    rw [h]
    rfl
  · rfl

theorem lastKey_setLastKey (st : Store) (m m' : Model) (last : Int64) :
    (st.setLastKey m last).lastKey m' =
      if m'.hierarchyRoot = m.hierarchyRoot then last else st.lastKey m' := by
  unfold lastKey setLastKey
  rw [Dict.get?_insert]
  split <;> rfl

/-- models of one tree have one last key -/
theorem lastKey_congr (st : Store) {m m' : Model} (h : m'.hierarchyRoot = m.hierarchyRoot) :
    st.lastKey m' = st.lastKey m := by
  rw [lastKey, lastKey, h]

/-- steps on a store, which keep what they wrote when a later one fails -/
abbrev Action := ExceptT Error (StateM Store)

theorem Action.bind_of_ok {α β : Type} {a : Action α} {f : α → Action β} {st st' : Store} {x : α}
    (h : a.run st = (.ok x, st')) : (a >>= f).run st = (f x).run st' := by
  rw [ExceptT.run_bind]
  show StateT.bind a.run _ st = _
  unfold StateT.bind
  rw [h]
  rfl

def insertion (i : Insertion) : Action (List Value) := do
  let m ← (← get).schema.modelNamed i.model
  if let some column := strayColumn? m i.row then
    throw (.unknownColumn i.model column)
  let (row, last) := keyed m ((← get).lastKey m) i.row
  modify (·.setLastKey m last)
  modify (·.append i.model row)
  return keyOf m row

/-- the answer to an insertion, and the store after it -/
def perform (st : Store) (i : Insertion) : Except Error (List Value) × Store :=
  (insertion i).run st

/-- the steps of an insertion are the insertion into a store, which is kept if it is refused -/
theorem perform_eq (st : Store) (i : Insertion) :
    st.perform i = match st.insert i.model i.row with
      | .ok (st', key) => (.ok key, st')
      | .error e => (.error e, st) := by
  unfold perform insertion insert
  have hget : (get : Action Store).run st = (.ok st, st) := rfl
  rw [Action.bind_of_ok hget]
  cases hm : st.schema.modelNamed i.model with
  | error e => rfl
  | ok m =>
    have hlift : (liftM (Except.ok m : Except Error Model) : Action Model).run st = (.ok m, st) :=
      rfl
    rw [Action.bind_of_ok hlift]
    cases hstray : strayColumn? m i.row with
    | some column =>
      simp only [hstray, Except.bind]
      rfl
    | none =>
      simp only [hstray, Except.bind]
      rfl

/-- an insertion is refused, or writes the last key of the tree and one row -/
theorem perform_cases (st : Store) (i : Insertion) :
    (∃ e, st.perform i = (.error e, st) ∧
        ∀ m, st.schema.model? i.model = some m → strayColumn? m i.row ≠ none) ∨
      ∃ m row last, st.schema.model? i.model = some m ∧ strayColumn? m i.row = none ∧
        keyed m (st.lastKey m) i.row = (row, last) ∧
        st.perform i = (.ok (keyOf m row), (st.setLastKey m last).append i.model row) := by
  rw [perform_eq]
  unfold insert
  cases hm : st.schema.model? i.model with
  | none =>
    rw [Schema.modelNamed_of_none hm]
    exact .inl ⟨_, rfl, nofun⟩
  | some m =>
    rw [Schema.modelNamed_of_some hm, bind_ok]
    cases hstray : strayColumn? m i.row with
    | some column =>
      refine .inl ⟨_, rfl, ?_⟩
      intro m' hm' hnone
      cases hm'
      rw [hstray] at hnone
      cases hnone
    | none => exact .inr ⟨m, _, _, rfl, hstray, rfl, rfl⟩

theorem schema_perform (st : Store) (i : Insertion) : (st.perform i).2.schema = st.schema := by
  rcases perform_cases st i with ⟨e, h, -⟩ | ⟨m, row, last, -, -, -, h⟩
  · rw [h]
  · rw [h]
    rfl

/-! ## runs -/

def run (st : Store) : List Insertion → Store
  | [] => st
  | i :: rest => (st.perform i).2.run rest

theorem run_cons (st : Store) (i : Insertion) (rest : List Insertion) :
    st.run (i :: rest) = (st.perform i).2.run rest := rfl

/-- the next key of the tree is needed, and is no integer -/
def exceeds (st : Store) (i : Insertion) : Bool :=
  match st.schema.model? i.model with
  | some m => m.assigns i.row && (strayColumn? m i.row).isNone && st.lastKey m == Int64.maxValue
  | none => false

def overflows (st : Store) : List Insertion → Bool
  | [] => false
  | i :: rest => st.exceeds i || (st.perform i).2.overflows rest

theorem overflows_cons (st : Store) (i : Insertion) (rest : List Insertion) :
    st.overflows (i :: rest) = (st.exceeds i || (st.perform i).2.overflows rest) := rfl

theorem overflows_concat (st : Store) (before : List Insertion) (i : Insertion) :
    st.overflows (before ++ [i]) = (st.overflows before || (st.run before).exceeds i) := by
  induction before generalizing st with
  | nil =>
    rw [List.nil_append, overflows_cons]
    exact Bool.or_comm _ _
  | cons x before ih =>
    rw [List.cons_append, overflows_cons, overflows_cons, ih, run_cons]
    exact (Bool.or_assoc _ _ _).symm

theorem schema_run (st : Store) (is : List Insertion) : (st.run is).schema = st.schema := by
  induction is generalizing st with
  | nil => rfl
  | cons i rest ih => rw [run_cons, ih, schema_perform]

theorem ne_maxValue_of_exceeds {st : Store} {i : Insertion} {m : Model}
    (h : st.exceeds i = false) (hm : st.schema.model? i.model = some m)
    (hstray : strayColumn? m i.row = none) (ha : m.assigns i.row = true) :
    st.lastKey m ≠ Int64.maxValue := by
  unfold exceeds at h
  rw [hm] at h
  simp only [ha, hstray, Option.isNone_none, Bool.and_self, Bool.true_and] at h
  exact beq_eq_false_iff_ne.mp h

/-! ## the last key bounds the keys -/

theorem keyed_bounds {m : Model} {row row' : Row} {last last' : Int64}
    (h : keyed m last row = (row', last')) (hlast : m.assigns row = true → last ≠ Int64.maxValue) :
    last ≤ last' ∧ ∀ column n, m.primaryKey = [column] → Row.value row' column = .integer n →
      n ≤ last' := by
  cases ha : m.assigns row with
  | false =>
    have hgiven := keyed_of_given ha last
    rw [h] at hgiven
    obtain ⟨rfl, hle, hkeys⟩ := hgiven
    exact ⟨hle, hkeys⟩
  | true =>
    obtain ⟨column, hkey, hv⟩ := Model.assigns_iff.mp ha
    rw [keyed_of_assigns hkey hv] at h
    cases h
    refine ⟨Int64.le_of_lt (lt_add_one_int64 (hlast ha)), ?_⟩
    intro column' n hkey' hn
    cases hkey.symm.trans hkey'
    rw [Row.value_insert, if_pos rfl] at hn
    cases hn
    exact Int64.le_refl _

/-- no row of a tree has an integer above the last key of the tree as the key of one column -/
def Sequenced (st : Store) : Prop :=
  ∀ n m column row j, st.schema.model? n = some m → m.primaryKey = [column] → row ∈ st.table n →
    Row.value row column = .integer j → j ≤ st.lastKey m

theorem sequenced_empty (s : Schema) : (empty s).Sequenced := by
  intro n m column row j _ _ hrow
  cases hrow

theorem Sequenced.perform {st : Store} (h : st.Sequenced) {i : Insertion}
    (hi : st.exceeds i = false) : (st.perform i).2.Sequenced := by
  rcases perform_cases st i with ⟨e, hp, -⟩ | ⟨m, row, last, hm, hstray, hkeyed, hp⟩
  · rw [hp]
    exact h
  · obtain ⟨hle, hnew⟩ := keyed_bounds hkeyed (ne_maxValue_of_exceeds hi hm hstray)
    rw [hp]
    intro n m' column r j hn hkey hr hj
    have hbound : ((st.setLastKey m last).append i.model row).lastKey m' =
        if m'.hierarchyRoot = m.hierarchyRoot then last else st.lastKey m' :=
      lastKey_setLastKey st m m' last
    -- the rows from before keep below the last key, which only grows
    have hold : r ∈ st.table n → j ≤ ((st.setLastKey m last).append i.model row).lastKey m' := by
      intro hr
      have hj := h n m' column r j hn hkey hr hj
      rw [hbound]
      split
      · rename_i hroot
        rw [st.lastKey_congr hroot] at hj
        exact Int64.le_trans hj hle
      · exact hj
    rw [table_append] at hr
    split at hr
    · rename_i hmodel
      rcases List.mem_append.mp hr with hr | hr
      · exact hold hr
      · cases List.mem_singleton.mp hr
        have hsame : m = m' := by
          rw [hmodel] at hn
          exact Option.some.inj (hm.symm.trans hn)
        subst hsame
        rw [hbound, if_pos rfl]
        exact hnew column j hkey hj
    · exact hold hr

theorem sequenced_run {st : Store} (h : st.Sequenced) {is : List Insertion}
    (hi : st.overflows is = false) : (st.run is).Sequenced := by
  induction is generalizing st with
  | nil => exact h
  | cons i rest ih =>
    rw [overflows_cons, Bool.or_eq_false_iff] at hi
    exact ih (h.perform hi.1) hi.2

/-! ## counts -/

theorem length_stored (model : String) (place : Nat) (table : List Row) :
    (stored model place table).length = table.length := by
  induction table generalizing place with
  | nil => rfl
  | cons row rest ih => rw [stored, List.length_cons, List.length_cons, ih]

theorem length_rowsOf (st : Store) (n : String) : (st.rowsOf n).length = (st.table n).length :=
  length_stored n 0 (st.table n)

/-- one more row of a model is one more row of a list of different models that has the model -/
theorem length_flatMap_append {st : Store} {model : String} {row : Row} {names : List String}
    (hd : names.Nodup) : (names.flatMap (st.append model row).rowsOf).length =
      (names.flatMap st.rowsOf).length + if model ∈ names then 1 else 0 := by
  induction names with
  | nil => rfl
  | cons n names ih =>
    obtain ⟨hn, hd⟩ := List.nodup_cons.mp hd
    rw [List.flatMap_cons, List.flatMap_cons, List.length_append, List.length_append, ih hd,
      length_rowsOf, length_rowsOf, table_append]
    by_cases h : n = model
    · subst h
      rw [if_pos rfl, if_neg hn, if_pos List.mem_cons_self, List.length_append,
        List.length_singleton]
      omega
    · have hmem : model ∈ n :: names ↔ model ∈ names := by
        rw [List.mem_cons]
        exact or_iff_right fun he => h he.symm
      rw [if_neg h]
      simp only [hmem]
      omega

theorem count_append {st : Store} (hs : st.schema.Sound) (model : String) (row : Row) (n : String) :
    (st.append model row).count n = (st.count n).map fun k =>
      if st.schema.isVariantOf model n then k + 1 else k := by
  unfold count scan
  show Except.map _ (Except.map _ (st.schema.variantsOf n)) = _
  unfold Schema.variantsOf
  cases hnames : st.schema.variantsOf? n with
  | none => rfl
  | some names =>
    rw [map_ok, map_ok, map_ok, map_ok, map_ok, length_flatMap_append (hs.nodup_variantsOf? hnames)]
    simp only [hs.mem_variantsOf?_iff hnames]
    split <;> rfl

/-! ## what an insertion does -/

/-- one more row of a model, with the key that it was given or the next one of its tree -/
structure Adds (st : Store) (i : Insertion) (m : Model) (row : Row) (key : List Value)
    (st' : Store) : Prop where
  known : st.schema.model? i.model = some m
  schema_eq : st'.schema = st.schema
  tables : ∀ n, st'.table n = if n = i.model then st.table n ++ [row] else st.table n
  counts : ∀ n, st'.count n = (st.count n).map fun k =>
    if st.schema.isVariantOf i.model n then k + 1 else k
  key_eq : key = m.primaryKey.map (Row.value row)
  given : m.assigns i.row = false → row = i.row
  /-- an assigned key is above the integer keys of all rows in the tree of variants -/
  assigned : ∀ column, m.primaryKey = [column] → Row.value i.row column = .null →
    ∃ k : Int64, row = i.row.insert column (.integer k) ∧
      ∀ n m' column' r j, st.schema.Akin i.model n → st.schema.model? n = some m' →
        m'.primaryKey = [column'] → r ∈ st.table n → Row.value r column' = .integer j → j < k

theorem Sequenced.adds {st : Store} (hs : st.schema.Sound) (h : st.Sequenced) {i : Insertion}
    (hi : st.exceeds i = false) {m : Model} {row : Row} {last : Int64}
    (hm : st.schema.model? i.model = some m) (hstray : strayColumn? m i.row = none)
    (hkeyed : keyed m (st.lastKey m) i.row = (row, last)) :
    st.Adds i m row (keyOf m row) ((st.setLastKey m last).append i.model row) where
  known := hm
  schema_eq := rfl
  tables := fun n => table_append (st.setLastKey m last) i.model n row
  counts := by
    have hs' : (st.setLastKey m last).schema.Sound := hs
    exact count_append hs' i.model row
  key_eq := rfl
  given := by
    intro ha
    have hgiven := (keyed_of_given ha (st.lastKey m)).1
    rw [hkeyed] at hgiven
    exact hgiven
  assigned := by
    intro column hkey hv
    rw [keyed_of_assigns hkey hv] at hkeyed
    cases hkeyed
    refine ⟨st.lastKey m + 1, rfl, ?_⟩
    intro n m' column' r j hakin hn hkey' hr hj
    have hle := h n m' column' r j hn hkey' hr hj
    have hroot := (hs.akin_iff hm hn).mp hakin
    rw [st.lastKey_congr hroot.symm] at hle
    have hlt := lt_add_one_int64
      (ne_maxValue_of_exceeds hi hm hstray (Model.assigns_iff.mpr ⟨column, hkey, hv⟩))
    exact Int64.lt_of_le_of_lt hle hlt

theorem strayColumn?_eq_none_iff {m : Model} {row : Row} :
    strayColumn? m row = none ↔ ∀ column ∈ row.keys, m.attributes.contains column = true := by
  unfold strayColumn?
  rw [List.find?_eq_none]
  simp

/-- after a run, an insertion is accepted if its model is known and has the columns; then it adds
one row, and else it changes nothing -/
theorem perform_after_run {s : Schema} (hs : s.Built) {before : List Insertion} {i : Insertion}
    (h : (empty s).overflows (before ++ [i]) = false) :
    (∀ e st', ((empty s).run before).perform i = (.error e, st') → st' = (empty s).run before) ∧
      (∀ key st', ((empty s).run before).perform i = (.ok key, st') →
        ∃ m row, ((empty s).run before).Adds i m row key st') ∧
      ((∃ key st', ((empty s).run before).perform i = (.ok key, st')) ↔
        ∃ m, s.model? i.model = some m ∧
          ∀ column ∈ i.row.keys, m.attributes.contains column = true) := by
  rw [overflows_concat, Bool.or_eq_false_iff] at h
  have hseq : ((empty s).run before).Sequenced := sequenced_run (sequenced_empty s) h.1
  have hschema : ((empty s).run before).schema = s := schema_run (empty s) before
  have hsound : ((empty s).run before).schema.Sound := by
    rw [hschema]
    exact hs.sound
  generalize (empty s).run before = st at h hseq hschema hsound
  rw [← hschema]
  simp only [← strayColumn?_eq_none_iff]
  rcases perform_cases st i with ⟨e, hp, hrefused⟩ | ⟨m, row, last, hm, hstray, hkeyed, hp⟩
  · rw [hp]
    refine ⟨?_, ?_, ?_, ?_⟩
    · rintro e st' he
      cases he
      rfl
    · rintro key st' he
      cases he
    · rintro ⟨key, st', he⟩
      cases he
    · rintro ⟨m, hm, hstray⟩
      exact absurd hstray (hrefused m hm)
  · rw [hp]
    refine ⟨?_, ?_, ?_, ?_⟩
    · rintro e st' he
      cases he
    · rintro key st' he
      cases he
      exact ⟨m, row, hseq.adds hsound h.2 hm hstray hkeyed⟩
    · rintro -
      exact ⟨m, hm, hstray⟩
    · rintro -
      exact ⟨_, _, rfl⟩

end Store

/-! ## tubes and boxes -/

namespace Tubes

def container : Declaration := (Declaration.named "Container").addKeyColumn "id"

def tube : Declaration :=
  ((Declaration.named "Tube").addAttribute "volume" .integer).withParent "Container"

def box : Declaration := (Declaration.named "Box").withParent "Container"

def schema : Schema := (Schema.ofDeclarations [container, tube, box]).toOption.getD .empty

theorem ofDeclarations_eq : Schema.ofDeclarations [container, tube, box] = .ok schema := by cbv

theorem built : schema.Built := by
  refine ⟨[container, tube, box], ?_, ofDeclarations_eq⟩
  intro d hd
  simp only [List.mem_cons, List.not_mem_nil, or_false] at hd
  rcases hd with rfl | rfl | rfl
  · exact .addKeyColumn _ (.named _)
  · exact .withParent _ (.addAttribute _ _ (.named _))
  · exact .withParent _ (.named _)

/-- keys that are given, missing and below zero, and a box of a volume, which is refused -/
def before : List Insertion :=
  [⟨"Tube", Dict.ofList [("id", .integer 7), ("volume", .integer 2)]⟩, ⟨"Container", .empty⟩,
    ⟨"Box", Dict.ofList [("id", .integer (-3))]⟩, ⟨"Box", Dict.ofList [("volume", .integer 1)]⟩]

def emptyBox : Insertion := ⟨"Box", Dict.ofList [("id", .null)]⟩

theorem overflows_eq : (Store.empty schema).overflows (before ++ [emptyBox]) = false := by cbv

theorem perform_after_run_tubes :
    schema.Built ∧ (Store.empty schema).overflows (before ++ [emptyBox]) = false ∧
      (∀ e st', ((Store.empty schema).run before).perform emptyBox = (.error e, st') →
        st' = (Store.empty schema).run before) ∧
      (∀ key st', ((Store.empty schema).run before).perform emptyBox = (.ok key, st') →
        ∃ m row, ((Store.empty schema).run before).Adds emptyBox m row key st') ∧
      ((∃ key st', ((Store.empty schema).run before).perform emptyBox = (.ok key, st')) ↔
        ∃ m, schema.model? emptyBox.model = some m ∧
          ∀ column ∈ emptyBox.row.keys, m.attributes.contains column = true) :=
  ⟨built, overflows_eq, Store.perform_after_run built overflows_eq⟩

/-- a tube has the key 7, so that the container has 8 -/
example : (((Store.empty schema).run before).perform emptyBox).1 = .ok [.integer 9] := by cbv

end Tubes

end NestedQuery
