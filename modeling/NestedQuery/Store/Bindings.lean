import NestedQuery.Plan.Basic
import NestedQuery.Store.Basic
import NestedQuery.Value.Compare

/-!
# Bindings of rows to aliases

The joins of a plan extend bindings of rows to aliases, and its filters keep the bindings for
which a predicate is definitely true.

* `Binding`               rows by the numbers of their aliases;
* `Predicate.truth`       the truth of a predicate under a binding;
* `Store.joinAll`, `Store.filterAll`   all joins, all filters;
* `Store.bindings`        the bindings that a plan keeps.
-/

namespace NestedQuery

/-- rows by the numbers of their aliases; of two rows with one number the first counts -/
abbrev Binding := List (Nat × StoredRow)

/-- the row of an alias -/
def Binding.row (b : Binding) (a : Alias) : Except Error StoredRow :=
  match b.lookup a.index with
  | some r => .ok r
  | none => .error (.unboundAlias a)

/-! ## predicates -/

/-- the value that a column stands for, where `related` is the row that an `exist` ranges over -/
def Column.value (b : Binding) (related : Option StoredRow) : Column → Except Error Value
  | .bound a column => (b.row a).map (·.value column)
  | .related column =>
    match related with
    | some r => .ok (r.value column)
    | none => .error (.unrelatedColumn column)

/-- true if the test is definitely true of some row, and false otherwise; rows after the first
such row are not tested -/
def someTrue (test : StoredRow → Except Error Truth) : List StoredRow → Except Error Truth
  | [] => .ok (some false)
  | r :: rest =>
    (test r).bind fun t => if t = some true then .ok (some true) else someTrue test rest

theorem someTrue_cons (test : StoredRow → Except Error Truth) (r : StoredRow)
    (rest : List StoredRow) :
    someTrue test (r :: rest) =
      (test r).bind fun t => if t = some true then .ok (some true) else someTrue test rest :=
  rfl

/-- the rows that a relationship leads to from the row of an alias -/
def Store.relatedTo (s : Store) (b : Binding) (parent : Alias) (r : Relationship)
    (model : String) : Except Error (List StoredRow) :=
  (b.row parent).bind fun row => s.related model r.remoteColumn (row.value r.localColumn)

def Predicate.truth (s : Store) (b : Binding) (related : Option StoredRow) :
    Predicate → Except Error Truth
  | .and left right =>
    (left.truth s b related).bind fun l => (right.truth s b related).map fun r => Truth.and l r
  | .or left right =>
    (left.truth s b related).bind fun l => (right.truth s b related).map fun r => Truth.or l r
  | .not inner => (inner.truth s b related).map Truth.not
  | .compare column op value => (column.value b related).map fun v => op.truth v value
  | .exist parent r inner =>
    (s.relatedTo b parent r r.target).bind fun rows =>
      someTrue (fun row => inner.truth s b (some row)) rows

/-! ## joins and filters -/

namespace Store

/-- a binding with each of the rows that a join leads to -/
def joinOne (s : Store) (j : Join) (b : Binding) : Except Error (List Binding) :=
  (s.relatedTo b j.parent j.relationship j.bound.model).map fun rows =>
    rows.map fun row => (j.bound.index, row) :: b

def join (s : Store) (j : Join) : List Binding → Except Error (List Binding)
  | [] => .ok []
  | b :: rest =>
    (s.joinOne j b).bind fun first => (s.join j rest).map fun others => first ++ others

def joinAll (s : Store) : List Join → List Binding → Except Error (List Binding)
  | [], bs => .ok bs
  | j :: rest, bs => (s.join j bs).bind fun bs => s.joinAll rest bs

/-- the bindings for which a predicate is definitely true -/
def filter (s : Store) (p : Predicate) : List Binding → Except Error (List Binding)
  | [] => .ok []
  | b :: rest =>
    (p.truth s b none).bind fun t =>
      (s.filter p rest).map fun kept => if t = some true then b :: kept else kept

def filterAll (s : Store) : List Predicate → List Binding → Except Error (List Binding)
  | [], bs => .ok bs
  | p :: rest, bs => (s.filter p bs).bind fun bs => s.filterAll rest bs

/-- one binding for each row of the root -/
def rootBindings (s : Store) (root : Alias) : Except Error (List Binding) :=
  (s.scan root.model).map fun rows => rows.map fun row => [(root.index, row)]

/-- all joins come before all filters -/
def bindings (s : Store) (p : Plan) : Except Error (List Binding) :=
  (s.rootBindings p.root).bind fun bs =>
    (s.joinAll p.joins bs).bind fun bs => s.filterAll p.filters bs

end Store

end NestedQuery
