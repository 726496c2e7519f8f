import NestedQuery.Comparison
import NestedQuery.Plan.Alias
import NestedQuery.Schema.Declaration

/-!
# Plans

A plan says in flat steps which rows to bind to which aliases, which relationships to load and
which bindings to keep.

* `Predicate`     comparisons, and the existence of related rows, under connectives;
* `Directive`     joins, chains of relationships to load, and filters;
* `Plan`          a root and directives in their order.
-/

namespace NestedQuery

/-- what a comparison looks at -/
inductive Column
  /-- a column of the row bound to an alias -/
  | bound (a : Alias) (column : String)
  /-- a column of the related row that the innermost `exist` ranges over -/
  | related (column : String)

inductive Predicate
  | and (left right : Predicate)
  | or (left right : Predicate)
  | not (inner : Predicate)
  | compare (column : Column) (op : Comparison) (value : Value)
  /-- some row related to the row of `parent` satisfies the inner predicate -/
  | exist (parent : Alias) (r : Relationship) (inner : Predicate)

/-- bind `bound` to the rows that a relationship leads to from the row of `parent` -/
structure Join where
  bound : Alias
  parent : Alias
  relationship : Relationship

/-- one relationship to load, with the alias of its rows -/
structure Hop where
  relationship : String
  bound : Alias
deriving DecidableEq

inductive Directive
  | join (j : Join)
  /-- the relationships to load on a way from the root -/
  | load (chain : List Hop)
  | filter (p : Predicate)

structure Plan where
  model : String
  root : Alias
  directives : List Directive

namespace Plan

def joins (p : Plan) : List Join :=
  p.directives.filterMap fun
    | .join j => some j
    | _ => none

def chains (p : Plan) : List (List Hop) :=
  p.directives.filterMap fun
    | .load chain => some chain
    | _ => none

def filters (p : Plan) : List Predicate :=
  p.directives.filterMap fun
    | .filter f => some f
    | _ => none

end Plan

end NestedQuery
