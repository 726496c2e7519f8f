import NestedQuery.Plan.OfQuery
import NestedQuery.Proofs.Store.Rows
import NestedQuery.Value.Compare

/-!
# What a query means

A query asks for rows: one for its root, and inside of it one for every block.  `RowTree` holds
such rows in the shape of the query, and `Query.Matches` says, from the tree of the query alone,
which of them the query asks for.

* `RowTree`, `RowTree.rows`    rows for a block and the blocks inside of it, in document order;
* `Site`                       a row with the block around it, as the filters of a block see it;
* `Term.truth`, `Filter.truth` the three-valued truth of a filter, read off its tree;
* `Matches`, `Query.Matches`   scanned rows that are joined and pass all filters;
* `blockTrees`                 a list of the rows that are joined, whatever the filters say.
-/

namespace NestedQuery

/-- a row for a block, and for each block among its members, in the order of the text -/
inductive RowTree
  | node (row : StoredRow) (inner : List RowTree)

namespace RowTree

def row : RowTree → StoredRow
  | node row _ => row

def inner : RowTree → List RowTree
  | node _ inner => inner

mutual

/-- the rows in document order, a block before the blocks inside of it -/
def rows : RowTree → List StoredRow
  | node row inner => row :: rowsAll inner

def rowsAll : List RowTree → List StoredRow
  | [] => []
  | t :: rest => t.rows ++ rowsAll rest

end

theorem rowsAll_node (row : StoredRow) (inner rest : List RowTree) :
    rowsAll (node row inner :: rest) = row :: (rowsAll inner ++ rowsAll rest) := rfl

end RowTree

/-! ## filters -/

/-- the row of a block, and unless it is the root the relationship of the block, the block's model
and the row that the relationship starts from -/
structure Site where
  own : StoredRow
  enclosing : Option (Relationship × String × StoredRow)

/-- the rows that `any` and `all` speak of: those that a block might be joined with -/
def Site.peers (st : Store) (site : Site) : List StoredRow :=
  match site.enclosing with
  | none => []
  | some (r, model, parent) => st.joined r model parent

/-- the truth of a term: `*` compares the row of the block itself, `any` is true if the comparison
is definitely true of some peer, and `all` if it is definitely false of none -/
def Term.truth (st : Store) (c : Coercions) (a : Attribute) (site : Site) (t : Term) : Truth :=
  match literalValue c a t.literal with
  | .error _ => none
  | .ok v =>
    let compared (row : StoredRow) : Truth := t.operator.comparison.truth (row.value a.name) v
    match t.selector with
    | .star => compared site.own
    | .any => some ((site.peers st).any fun row => compared row == some true)
    | .all => some ((site.peers st).all fun row => compared row != some false)

def Filter.truth (st : Store) (c : Coercions) (a : Attribute) (site : Site) : Filter → Truth
  | .term t => t.truth st c a site
  | .joined .and left right => Truth.and (left.truth st c a site) (right.truth st c a site)
  | .joined .or left right => Truth.or (left.truth st c a site) (right.truth st c a site)

/-! ## matching rows -/

/-- rows for the blocks among the members of a block: each is joined with the row of that block,
and every filter is definitely true -/
inductive Matches (st : Store) (c : Coercions) : Site → List Member → List RowTree → Prop
  | nil (site : Site) : Matches st c site [] []
  | bare {site : Site} {a : Attribute} {rest : List Member} {ts : List RowTree}
      (hrest : Matches st c site rest ts) : Matches st c site (.attribute a none :: rest) ts
  | filtered {site : Site} {a : Attribute} {f : Filter} {rest : List Member} {ts : List RowTree}
      (hf : f.truth st c a site = some true) (hrest : Matches st c site rest ts) :
      Matches st c site (.attribute a (some f) :: rest) ts
  | block {site : Site} {r : Relationship} {model : String} {row : StoredRow}
      {children rest : List Member} {inner ts : List RowTree}
      (hrow : row ∈ st.joined r model site.own)
      (hinner : Matches st c ⟨row, some (r, model, site.own)⟩ children inner)
      (hrest : Matches st c site rest ts) :
      Matches st c site (.relationship r model children :: rest) (.node row inner :: ts)

/-- the root is a scanned row, and the rows of the blocks match -/
structure Query.Matches (st : Store) (c : Coercions) (q : Query) (t : RowTree) : Prop where
  root : t.row ∈ st.rows q.model
  members : NestedQuery.Matches st c ⟨t.row, none⟩ q.children t.inner

/-! ## joined rows -/

mutual

/-- the rows for a member that are joined with a row and each other -/
def memberTrees (st : Store) (own : StoredRow) : Member → List (List RowTree)
  | .attribute _ _ => [[]]
  | .relationship r model children =>
    (st.joined r model own).flatMap fun row =>
      (blockTrees st row children).map fun inner => [.node row inner]

/-- the rows for the blocks among the members that are joined with a row and each other -/
def blockTrees (st : Store) (own : StoredRow) : List Member → List (List RowTree)
  | [] => [[]]
  | m :: rest =>
    (memberTrees st own m).flatMap fun first =>
      (blockTrees st own rest).map fun others => first ++ others

end

theorem blockTrees_attribute (st : Store) (own : StoredRow) (a : Attribute) (f : Option Filter)
    (rest : List Member) :
    blockTrees st own (.attribute a f :: rest) = blockTrees st own rest := by
  show [[]].flatMap (fun first => (blockTrees st own rest).map fun others => first ++ others) = _
  rw [List.flatMap_singleton]
  exact List.map_id _

theorem blockTrees_relationship (st : Store) (own : StoredRow) (r : Relationship)
    (model : String) (children rest : List Member) :
    blockTrees st own (.relationship r model children :: rest) =
      (st.joined r model own).flatMap fun row =>
        (blockTrees st row children).flatMap fun inner =>
          (blockTrees st own rest).map fun ts => .node row inner :: ts := by
  show ((st.joined r model own).flatMap fun row =>
    (blockTrees st row children).map fun inner => [RowTree.node row inner]).flatMap _ = _
  rw [List.flatMap_assoc]
  refine List.flatMap_congr fun row _ => ?_
  rw [List.flatMap_map]
  rfl

theorem mem_blockTrees_relationship {st : Store} {own : StoredRow} {r : Relationship}
    {model : String} {children rest : List Member} {ts : List RowTree} :
    ts ∈ blockTrees st own (.relationship r model children :: rest) ↔
      ∃ row inner others, row ∈ st.joined r model own ∧ inner ∈ blockTrees st row children ∧
        others ∈ blockTrees st own rest ∧ ts = .node row inner :: others := by
  rw [blockTrees_relationship, List.mem_flatMap]
  constructor
  · rintro ⟨row, hrow, h⟩
    obtain ⟨inner, hinner, h⟩ := List.mem_flatMap.mp h
    obtain ⟨others, hothers, rfl⟩ := List.mem_map.mp h
    exact ⟨row, inner, others, hrow, hinner, hothers, rfl⟩
  · rintro ⟨row, inner, others, hrow, hinner, hothers, rfl⟩
    exact ⟨row, hrow, List.mem_flatMap.mpr ⟨inner, hinner, List.mem_map_of_mem hothers⟩⟩

/-- the rows for a query that are joined with each other -/
def Query.trees (st : Store) (q : Query) : List RowTree :=
  (st.rows q.model).flatMap fun row =>
    (blockTrees st row q.children).map fun inner => .node row inner

theorem Query.mem_trees_iff {st : Store} {q : Query} {t : RowTree} :
    t ∈ q.trees st ↔ t.row ∈ st.rows q.model ∧ t.inner ∈ blockTrees st t.row q.children := by
  rw [trees, List.mem_flatMap]
  constructor
  · rintro ⟨row, hrow, h⟩
    obtain ⟨inner, hinner, rfl⟩ := List.mem_map.mp h
    exact ⟨hrow, hinner⟩
  · rintro ⟨hrow, hinner⟩
    cases t with
    | node row inner => exact ⟨row, hrow, List.mem_map_of_mem hinner⟩

end NestedQuery
