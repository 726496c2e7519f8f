import NestedQuery.Schema.Lookup
import NestedQuery.Value.Order

/-!
# Stored rows

A store keeps the rows of every model in the order of their insertion, and for every tree of
variants the greatest integer that was a key there.

* `Row`, `StoredRow`           columns with values; a row with its model and its place;
* `Store.insert`               one more row, with a key of its own if it comes without one;
* `Store.scan`, `Store.count`  the rows of a model and its variants;
* `Store.related`              the rows that a relationship leads to.
-/

namespace NestedQuery

/-- values by column -/
abbrev Row := Dict Value

namespace Row

/-- the value of a column, null if the row has none -/
def value (row : Row) (column : String) : Value := (row.get? column).getD .null

theorem value_insert (row : Row) (column column' : String) (v : Value) :
    value (row.insert column v) column' = if column' = column then v else value row column' := by
  unfold value
  rw [Dict.get?_insert]
  split <;> rfl

end Row

structure StoredRow where
  /-- the model that the row was inserted into -/
  model : String
  /-- the number of rows of the model that were inserted before -/
  place : Nat
  row : Row

def StoredRow.value (r : StoredRow) (column : String) : Value := Row.value r.row column

structure Store where
  schema : Schema
  /-- the rows of each model, in the order of their insertion -/
  tables : Dict (List Row)
  /-- for the root of each tree of variants the last key that was assigned or exceeds those -/
  sequences : Dict Int64

namespace Store

def empty (s : Schema) : Store := ⟨s, .empty, .empty⟩

/-! ## reading -/

/-- the rows that were inserted into a model itself -/
def table (s : Store) (model : String) : List Row := (s.tables.get? model).getD []

def stored (model : String) (place : Nat) : List Row → List StoredRow
  | [] => []
  | row :: rest => ⟨model, place, row⟩ :: stored model (place + 1) rest

def rowsOf (s : Store) (model : String) : List StoredRow := stored model 0 (s.table model)

/-- the rows of a model and then of its variants -/
def scan (s : Store) (model : String) : Except Error (List StoredRow) :=
  (s.schema.variantsOf model).map fun names => names.flatMap s.rowsOf

/-- the number of rows of a model and its variants -/
def count (s : Store) (model : String) : Except Error Nat := (s.scan model).map (·.length)

/-- the row's column equals a value -/
def matching (column : String) (v : Value) (r : StoredRow) : Bool :=
  (r.value column).compare? v == some .eq

/-- the rows of a model and its variants whose column equals a value; none equals a null -/
def related (s : Store) (model column : String) (v : Value) : Except Error (List StoredRow) :=
  if v.isNull then .ok [] else (s.scan model).map (·.filter (matching column v))

/-! ## writing -/

/-- the first column that is no attribute of a model -/
def strayColumn? (m : Model) (row : Row) : Option String :=
  row.keys.find? fun column => !m.attributes.contains column

/-- the last key of the tree of a model -/
def lastKey (s : Store) (m : Model) : Int64 := (s.sequences.get? m.hierarchyRoot).getD 0

/-- a row with its key, and the last key of the tree afterwards.  An integer key of one column
raises the last key; a missing or null one is the next integer. -/
def keyed (m : Model) (last : Int64) (row : Row) : Row × Int64 :=
  match m.primaryKey with
  | [column] =>
    match Row.value row column with
    | .integer n => (row, max last n)
    | .null => (row.insert column (.integer (last + 1)), last + 1)
    | _ => (row, last)
  | _ => (row, last)

/-- the values of the key columns -/
def keyOf (m : Model) (row : Row) : List Value := m.primaryKey.map (Row.value row)

/-- a store with one more row, and the key of the row -/
def insert (s : Store) (model : String) (row : Row) : Except Error (Store × List Value) :=
  (s.schema.modelNamed model).bind fun m =>
    match strayColumn? m row with
    | some column => .error (.unknownColumn model column)
    | none =>
      let (row, last) := keyed m (s.lastKey m) row
      .ok ({ s with tables := s.tables.insert model (s.table model ++ [row])
                    sequences := s.sequences.insert m.hierarchyRoot last }, keyOf m row)

end Store

end NestedQuery
