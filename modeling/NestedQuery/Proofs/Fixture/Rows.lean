import NestedQuery.Proofs.Coercion.Standard
import NestedQuery.Proofs.Fixture.Built
import NestedQuery.Proofs.Store.Insertion

/-!
# Rows of loaded fixtures

The rows of a fixture are looked at in their order.  The first one with a column that cannot be
brought to its declared type, or of an unknown model, is why a fixture is not loaded.  Whether the
type accepts what a column was brought to is not asked, as it is for literals.

* `Fixture.WrittenRow`       a row with its model and its number;
* `Fixture.judges_database`  a fixture is loaded, or fails with its first row at fault;
* `Fixture.Loads`            a written row and the row that is stored for it;
* `Fixture.loads_of_database`   the stored rows are those of the written ones, in their order;
* `Fixture.database_typed`   what is stored for a value suits its type if the type takes the value;
* `Dates.stored_untyped`     a number that is stored as a date.
-/

namespace NestedQuery

namespace Fixture

/-! ## columns -/

section
variable {s : Schema} {c : Coercions} {model : String}

theorem columnOf_eq_ok_iff {column : String} {j : Json} {v : Value} :
    columnOf s c model column j = .ok v ↔ ∃ a w, s.attribute? model column = some a ∧
      j.columnValue = .ok w ∧ c.coerce a w = .ok v := by
  rw [columnOf]
  simp only [bind_eq_ok, Schema.attributeOf_ok_iff]
  exact exists_congr fun a => ⟨fun ⟨ha, w, hw, hv⟩ => ⟨w, ha, hw, hv⟩,
    fun ⟨w, ha, hw, hv⟩ => ⟨ha, w, hw, hv⟩⟩

theorem judges_columnsOf (entries : List (String × Json)) :
    Judges (fun e => ∃ v, columnOf s c model e.1 e.2 = .ok v)
      (fun e cause => columnOf s c model e.1 e.2 = .error cause) entries
      (columnsOf s c model entries) := by
  induction entries with
  | nil => exact judges_nil _
  | cons e rest ih =>
    have hfirst : Judges (fun e : String × Json => ∃ v, columnOf s c model e.1 e.2 = .ok v)
        (fun e cause => columnOf s c model e.1 e.2 = .error cause) [e]
        (columnOf s c model e.1 e.2) := by
      cases h : columnOf s c model e.1 e.2 with
      | ok v => exact judges_ok ⟨v, h⟩ v
      | error cause => exact judges_error h
    exact hfirst.bind fun _ _ => ih.map _

/-- a row has the columns that are written, each brought to its type -/
theorem columns_of_columnsOf {entries : List (String × Json)} {columns : List (String × Value)}
    (h : columnsOf s c model entries = .ok columns) :
    columns.map (·.1) = entries.map (·.1) ∧ ∀ column, Option.Rel
      (fun j v => columnOf s c model column j = .ok v) (Dict.lookIn column entries)
      (Dict.lookIn column columns) := by
  induction entries generalizing columns with
  | nil =>
    cases h
    exact ⟨rfl, fun _ => .none⟩
  | cons e rest ih =>
    obtain ⟨v, hv, h⟩ := bind_eq_ok.mp h
    obtain ⟨others, hothers, rfl⟩ := map_eq_ok.mp h
    obtain ⟨hkeys, hcolumns⟩ := ih hothers
    refine ⟨congrArg (e.1 :: ·) hkeys, fun column => ?_⟩
    rw [Dict.lookIn_cons, Dict.lookIn_cons]
    by_cases hname : column = e.1
    · rw [if_pos hname, if_pos hname, hname]
      exact .some hv
    · rw [if_neg hname, if_neg hname]
      exact hcolumns column

theorem columns_of_rowOf {fields : Dict Json} {row : Row} (h : rowOf s c model fields = .ok row)
    (column : String) :
    Option.Rel (fun j v => columnOf s c model column j = .ok v) (fields.get? column)
      (row.get? column) := by
  obtain ⟨columns, hcolumns, rfl⟩ := map_eq_ok.mp h
  obtain ⟨hkeys, hrel⟩ := columns_of_columnsOf hcolumns
  have hnd : (columns.map (·.1)).Nodup := hkeys ▸ fields.nodup_keys
  rw [Dict.get?_ofList hnd]
  exact hrel column

/-- no column of such a row is unknown to the model -/
theorem strayColumn_of_rowOf {fields : Dict Json} {row : Row}
    (h : rowOf s c model fields = .ok row) {m : Model} (hm : s.model? model = some m) :
    Store.strayColumn? m row = none := by
  refine Store.strayColumn?_eq_none_iff.mpr fun column hcolumn => ?_
  obtain ⟨⟨name, v⟩, he, rfl⟩ := List.mem_map.mp hcolumn
  have hrel := columns_of_rowOf h name
  rw [Dict.mem_entries_iff.mp he] at hrel
  generalize fields.get? name = j at hrel
  cases hrel with
  | some hv =>
    obtain ⟨a, w, ha, -⟩ := columnOf_eq_ok_iff.mp hv
    rw [Schema.attribute?, hm] at ha
    exact Dict.contains_iff.mpr ⟨a, ha⟩

end

/-! ## written rows -/

/-- a row as it is written, with its model and its number among the rows of the model -/
structure WrittenRow where
  model : String
  index : Nat
  fields : Dict Json

def numbered (model : String) (index : Nat) : List (Dict Json) → List WrittenRow
  | [] => []
  | fields :: rest => ⟨model, index, fields⟩ :: numbered model (index + 1) rest

/-- the rows of a fixture in their order -/
def writtenRows (f : Fixture) : List WrittenRow :=
  f.rows.entries.flatMap fun e => numbered e.1 0 e.2

namespace WrittenRow

/-- a row of a known model whose columns can all be brought to their types -/
structure Accepted (s : Schema) (c : Coercions) (w : WrittenRow) : Prop where
  model : ∃ m, s.model? w.model = some m
  columns : ∀ column j, w.fields.get? column = some j →
    ∃ v, columnOf s c w.model column j = .ok v

/-- a row is at fault for one of its columns, or for its model if it has no columns -/
inductive Offends (s : Schema) (c : Coercions) (w : WrittenRow) : Error → Prop
  | column {column : String} {j : Json} {cause : Error} (h : w.fields.get? column = some j)
      (hfault : columnOf s c w.model column j = .error cause) :
      Offends s c w (.rejectedRow w.model w.index cause)
  | model (hempty : ∀ column, w.fields.get? column = none) (h : s.model? w.model = none) :
      Offends s c w (.unknownModel w.model)

end WrittenRow

/-! ## one row -/

/-- a written row and the row that is stored for it, which has a key of its own if none is given -/
def Loads (s : Schema) (c : Coercions) (model : String) (fields : Dict Json) (row : Row) : Prop :=
  ∃ converted m last, rowOf s c model fields = .ok converted ∧ s.model? model = some m ∧
    row = (Store.keyed m last converted).1

section
variable {c : Coercions} {model : String} {st st' : Store} {fields : Dict Json} {row : Row}

theorem insert_of_rowOf (h : rowOf st.schema c model fields = .ok row) {m : Model}
    (hm : st.schema.model? model = some m) :
    st.insert model row =
      .ok ((st.setLastKey m (Store.keyed m (st.lastKey m) row).2).append model
          (Store.keyed m (st.lastKey m) row).1,
        Store.keyOf m (Store.keyed m (st.lastKey m) row).1) := by
  rw [Store.insert, Schema.modelNamed_of_some hm, bind_ok, strayColumn_of_rowOf h hm]
  rfl

/-- an insertion of a written row adds one row to the table of its model -/
theorem table_of_insert {key : List Value} (h : rowOf st.schema c model fields = .ok row)
    (hinsert : st.insert model row = .ok (st', key)) :
    ∃ stored, Loads st.schema c model fields stored ∧
      ∀ n, st'.table n = if n = model then st.table n ++ [stored] else st.table n := by
  obtain ⟨m, hm, -⟩ := bind_eq_ok.mp hinsert
  rw [Schema.modelNamed_ok_iff] at hm
  cases (insert_of_rowOf h hm).symm.trans hinsert
  exact ⟨_, ⟨row, m, st.lastKey m, h, hm, rfl⟩, fun n => Store.table_append _ model n _⟩

theorem judges_insert (h : rowOf st.schema c model fields = .ok row) (index : Nat) :
    Judges (WrittenRow.Accepted st.schema c) (WrittenRow.Offends st.schema c)
      [⟨model, index, fields⟩] (st.insert model row) := by
  cases hm : st.schema.model? model with
  | some m =>
    rw [insert_of_rowOf h hm]
    refine judges_ok ⟨⟨m, hm⟩, fun column j hj => ?_⟩ _
    have hrel := columns_of_rowOf h column
    rw [hj] at hrel
    generalize row.get? column = v at hrel
    cases hrel with
    | some hv => exact ⟨_, hv⟩
  | none =>
    rw [Store.insert, Schema.modelNamed_of_none hm]
    refine judges_error (.model (fun column => ?_) hm)
    have hrel := columns_of_rowOf h column
    generalize row.get? column = v at hrel
    generalize fields.get? column = j at hrel
    cases hrel with
    | none => rfl
    | some hv =>
      obtain ⟨a, w, ha, -⟩ := columnOf_eq_ok_iff.mp hv
      rw [Schema.attribute?, hm] at ha
      cases ha

end

/-! ## all rows -/

section
variable {c : Coercions}

/-- a list of rows adds the rows that are stored for it to the table of its model -/
theorem loads_of_insertRows {model : String} {rows : List (Dict Json)} {index : Nat}
    {st st' : Store} (h : insertRows c model index st rows = .ok st') :
    ∃ added, List.Forall₂ (Loads st.schema c model) rows added ∧
      ∀ n, st'.table n = if n = model then st.table n ++ added else st.table n := by
  induction rows generalizing index st with
  | nil =>
    cases h
    refine ⟨[], .nil, fun n => ?_⟩
    rw [List.append_nil, ite_self]
  | cons fields rest ih =>
    rw [insertRows] at h
    cases hrow : rowOf st.schema c model fields with
    | error e =>
      rw [hrow] at h
      cases h
    | ok row =>
      rw [hrow] at h
      obtain ⟨⟨st₁, key⟩, hinsert, h⟩ := bind_eq_ok.mp h
      obtain ⟨stored, hstored, htable⟩ := table_of_insert hrow hinsert
      obtain ⟨added, hadded, htable'⟩ := ih h
      rw [Store.schema_of_insert hinsert] at hadded
      refine ⟨stored :: added, .cons hstored hadded, fun n => ?_⟩
      rw [htable', htable]
      by_cases hn : n = model
      · rw [if_pos hn, if_pos hn, if_pos hn, List.append_assoc]
        rfl
      · rw [if_neg hn, if_neg hn, if_neg hn]

/-- lists for different models do so each for its own model -/
theorem loads_of_insertTables {tables : List (String × List (Dict Json))}
    (hnd : (tables.map (·.1)).Nodup) {st st' : Store} (h : insertTables c st tables = .ok st')
    (n : String) :
    ∃ added, List.Forall₂ (Loads st.schema c n) ((Dict.lookIn n tables).getD []) added ∧
      st'.table n = st.table n ++ added := by
  induction tables generalizing st with
  | nil =>
    cases h
    exact ⟨[], .nil, (List.append_nil _).symm⟩
  | cons e rest ih =>
    obtain ⟨hnew, hnd⟩ := List.nodup_cons.mp hnd
    obtain ⟨st₁, hrows, h⟩ := bind_eq_ok.mp h
    obtain ⟨first, hfirst, htable⟩ := loads_of_insertRows hrows
    obtain ⟨added, hadded, htable'⟩ := ih hnd h
    rw [schema_of_insertRows hrows] at hadded
    rw [Dict.lookIn_cons, htable', htable]
    by_cases hn : n = e.1
    · subst hn
      rw [Dict.lookIn_eq_none_of_notMem hnew] at hadded
      cases hadded
      rw [if_pos rfl, if_pos rfl, List.append_nil]
      exact ⟨first, hfirst, rfl⟩
    · rw [if_neg hn, if_neg hn]
      exact ⟨added, hadded, rfl⟩

/-- the stored rows of a model are those of its written rows, in their order -/
theorem loads_of_database {f : Fixture} {d : Database} (h : f.database c = .ok d) (model : String) :
    List.Forall₂ (Loads d.schema c model) ((f.rows.get? model).getD []) (d.store.table model) := by
  obtain ⟨s, hs, h⟩ := bind_eq_ok.mp h
  obtain ⟨st, hst, rfl⟩ := map_eq_ok.mp h
  obtain ⟨added, hadded, htable⟩ := loads_of_insertTables f.rows.nodup_keys hst model
  have htable : st.table model = added := htable
  rw [htable, Database.schema, schema_of_insertTables hst]
  exact hadded

theorem judges_insertRows (model : String) (index : Nat) (st : Store) (rows : List (Dict Json)) :
    Judges (WrittenRow.Accepted st.schema c) (WrittenRow.Offends st.schema c)
      (numbered model index rows) (insertRows c model index st rows) := by
  induction rows generalizing index st with
  | nil => exact judges_nil _
  | cons fields rest ih =>
    rw [insertRows]
    cases hrow : rowOf st.schema c model fields with
    | error cause =>
      have hcolumns : Judges _ _ _ (rowOf st.schema c model fields) :=
        (judges_columnsOf fields.entries).map _
      rw [hrow] at hcolumns
      obtain ⟨before, ⟨column, j⟩, after, hentries, -, hfault⟩ := hcolumns
      have hmem : (column, j) ∈ fields.entries :=
        hentries ▸ List.mem_append_right _ List.mem_cons_self
      exact FirstOffence.append_right
        (judges_error (α := Store) (.column (Dict.mem_entries_iff.mp hmem) hfault)) _
    | ok row =>
      refine Judges.bind (judges_insert hrow index) fun p hp => ?_
      have hschema : p.1.schema = st.schema := Store.schema_of_insert hp
      rw [← hschema]
      exact ih (index + 1) p.1

theorem judges_insertTables (st : Store) (tables : List (String × List (Dict Json))) :
    Judges (WrittenRow.Accepted st.schema c) (WrittenRow.Offends st.schema c)
      (tables.flatMap fun e => numbered e.1 0 e.2) (insertTables c st tables) := by
  induction tables generalizing st with
  | nil => exact judges_nil _
  | cons e rest ih =>
    rw [List.flatMap_cons]
    refine (judges_insertRows e.1 0 st e.2).bind fun st' hst' => ?_
    rw [← schema_of_insertRows hst']
    exact ih st'

/-- a fixture is loaded, or fails with the first of its rows that is at fault -/
theorem judges_database {f : Fixture} {s : Schema} (hs : f.schema = .ok s) :
    Judges (WrittenRow.Accepted s c) (WrittenRow.Offends s c) f.writtenRows (f.database c) := by
  rw [database, hs, bind_ok]
  exact (judges_insertTables (.empty s) f.rows.entries).map _

end

/-! ## types of stored values -/

/-- the columns of a stored row under the standard coercions: a value that is written, and no null,
is stored as its coercion, which the type accepts if it takes the value; a null is stored as a
null, or as an integer where it is a key of one column -/
def Stores (s : Schema) (model : String) (fields : Dict Json) (row : Row) : Prop :=
  ∀ column j, fields.get? column = some j → ∃ a v, s.attribute? model column = some a ∧
    j.columnValue = .ok v ∧
    (v ≠ .null → Coercions.standard.coerce a v = .ok (row.value column) ∧
      a.type.accepts (row.value column) = a.type.takes v) ∧
    (v = .null → row.value column = .null ∨ ∃ m n, s.model? model = some m ∧
      m.primaryKey = [column] ∧ row.value column = .integer n)

theorem Loads.stores {s : Schema} {model : String} {fields : Dict Json} {row : Row}
    (h : Loads s .standard model fields row) : Stores s model fields row := by
  obtain ⟨converted, m, last, hconverted, hm, rfl⟩ := h
  intro column j hj
  have hrel := columns_of_rowOf hconverted column
  rw [hj] at hrel
  cases hget : converted.get? column with
  | none =>
    rw [hget] at hrel
    cases hrel
  | some w =>
    rw [hget] at hrel
    cases hrel with
    | some hw =>
      obtain ⟨a, v, ha, hv, hcoerce⟩ := columnOf_eq_ok_iff.mp hw
      obtain ⟨haccepts, hnull⟩ := Coercions.typed_of_coerce hcoerce
      have hvalue : Row.value converted column = w := by rw [Row.value, hget]; rfl
      refine ⟨a, v, ha, hv, ?_⟩
      cases hassigns : m.assigns converted with
      | false =>
        rw [(Store.keyed_of_given hassigns last).1, hvalue]
        exact ⟨fun _ => ⟨hcoerce, haccepts⟩, fun h => .inl (hnull.mpr h)⟩
      | true =>
        obtain ⟨key, hkey, hmissing⟩ := Model.assigns_iff.mp hassigns
        rw [Store.keyed_of_assigns hkey hmissing, Row.value_insert]
        by_cases hcolumn : column = key
        · -- only a null makes way for an assigned key
          subst hcolumn
          rw [if_pos rfl]
          have hv : v = .null := hnull.mp (hvalue.symm.trans hmissing)
          exact ⟨fun h => absurd hv h, fun _ => .inr ⟨m, _, hm, hkey, rfl⟩⟩
        · rw [if_neg hcolumn, hvalue]
          exact ⟨fun _ => ⟨hcoerce, haccepts⟩, fun h => .inl (hnull.mpr h)⟩

/-- under the standard coercions a fixture is loaded, or fails with the first of its rows that is at
fault.  Its stored rows are those of the written ones, and what is stored for a value other than a
null suits the type of its attribute exactly if the type takes the value; a scalar that the type
does not take is stored as it is. -/
theorem database_typed {f : Fixture} {s : Schema} (hs : f.schema = .ok s) :
    Judges (WrittenRow.Accepted s .standard) (WrittenRow.Offends s .standard) f.writtenRows
        (f.database .standard) ∧
      (∀ d, f.database .standard = .ok d → ∀ model,
        List.Forall₂ (Stores s model) ((f.rows.get? model).getD []) (d.store.table model)) ∧
      ∀ a v, v.asList? = none → a.type.takes v = false →
        Coercions.standard.coerce a v = .ok v := by
  refine ⟨judges_database hs, fun d hd model => ?_, fun a v => Coercions.coerce_of_not_takes⟩
  cases hs.symm.trans (schema_of_database hd)
  exact (loads_of_database hd model).imp fun _ _ => Loads.stores

end Fixture

/-! ## dates -/

namespace Dates

/-- a sample that was taken on a day -/
def models : List Fixture.ModelForm :=
  [⟨"Sample", ["id"], Dict.ofList [("taken", .named "date")], .empty, none⟩]

/-- samples for which the day is written in some ways -/
def fixture (days : List Json) : Fixture :=
  ⟨models, Dict.ofList [("Sample", days.map fun day => Dict.ofList [("taken", day)])]⟩

def schema : Schema := ((fixture []).schema).toOption.getD .empty

theorem schema_eq (days : List Json) : (fixture days).schema = .ok schema := by cbv

def taken : Attribute := ⟨"Sample", "taken", .date⟩

/-- a day that is written as a number -/
def database : Database :=
  ((fixture [.integer 5]).database .standard).toOption.getD (.empty .empty)

/-- the number is stored, though the type does not accept it, and though no query may compare a day
with it -/
theorem stored_untyped :
    (fixture [.integer 5]).database .standard = .ok database ∧
      database.schema.attribute? "Sample" "taken" = some taken ∧
      (database.store.table "Sample").map (fun row => row.value "taken") = [.integer 5] ∧
      taken.type.accepts (.integer 5) = false ∧
      literalValue .standard taken (.integer 5) = .error (.typeMismatch taken "integer") :=
  ⟨by cbv, by cbv, by cbv, by cbv, by cbv⟩

/-- of a day, a number and no day the number is not taken -/
def days : List Json := [.string "2017-01-01", .integer 5, .null]

theorem database_typed_dates :
    (fixture days).schema = .ok schema ∧
      Judges (Fixture.WrittenRow.Accepted schema .standard)
        (Fixture.WrittenRow.Offends schema .standard) (fixture days).writtenRows
        ((fixture days).database .standard) ∧
      (∀ d, (fixture days).database .standard = .ok d → ∀ model,
        List.Forall₂ (Fixture.Stores schema model) (((fixture days).rows.get? model).getD [])
          (d.store.table model)) ∧
      ∀ a v, v.asList? = none → a.type.takes v = false →
        Coercions.standard.coerce a v = .ok v :=
  ⟨schema_eq days, Fixture.database_typed (schema_eq days)⟩

end Dates

end NestedQuery
