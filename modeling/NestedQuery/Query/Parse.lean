import NestedQuery.Query.Tokens
import NestedQuery.Query.Tree
import NestedQuery.Schema.Lookup

/-!
# From tokens to the tree of a query

The tokens of a query are read by the grammar

    query        := rootOpen body
    body         := member* close
    member       := attr filter? | relationshipOpen cast? body
    filter       := filterStart expression filterEnd
    expression   := factor (connective expression)?
    factor       := term | openParen expression closeParen

in which every name is looked up in the model of the block around it.  A chain of connectives
groups to the right.

* `Parse.expression`, `Parse.filter`, `Parse.body`   the parts of the grammar; each answers with
                                                     the rest of the tokens;
* `Query.ofTokens`, `Query.ofText`                   whole queries.
-/

namespace NestedQuery

namespace Parse

/-- what is left of a stream after at least one token was read -/
abbrev Rest (ts : TokenStream) := { r : TokenStream // r.length < ts.length }

/-- what is left of a stream -/
abbrev Tail (ts : TokenStream) := { r : TokenStream // r.length ≤ ts.length }

abbrev Result (α : Type) (ts : TokenStream) := Except Error (α × Rest ts)

/-- the next token, or the error in its place -/
def next (expected : Expectation) : (ts : TokenStream) → Result Located ts
  | [] => .error (.unexpectedEnd expected)
  | .error e :: _ => .error e
  | .ok t :: rest => .ok (t, ⟨rest, Nat.lt_succ_self _⟩)

/-- the rest after a closing parenthesis -/
def closeParen (ts : TokenStream) : Except Error (Rest ts) :=
  (next .closeParen ts).bind fun (t, rest) =>
    match t.token with
    | .closeParen => .ok rest
    | _ => .error (.unexpectedToken t .closeParen)

/-- the rest after a closing bracket -/
def filterEnd (ts : TokenStream) : Except Error (Rest ts) :=
  (next .filterEnd ts).bind fun (t, rest) =>
    match t.token with
    | .filterEnd => .ok rest
    | _ => .error (.unexpectedToken t .filterEnd)

/-! ## filters -/

/-- the connective at the start of a stream, if there is one -/
def connective? : (ts : TokenStream) → Except Error (Option (Connective × Rest ts))
  | [] => .ok none
  | .error e :: _ => .error e
  | .ok t :: rest =>
    match t.token with
    | .connective c => .ok (some (c, ⟨rest, Nat.lt_succ_self _⟩))
    | _ => .ok none

def expression (ts : TokenStream) : Result Filter ts :=
  (next .term ts).bind fun (t, ⟨rest, h⟩) =>
    let factor : Result Filter ts :=
      match t.token with
      | .term t => .ok (.term t, ⟨rest, h⟩)
      | .openParen =>
        (expression rest).bind fun (inner, ⟨r1, h1⟩) =>
          (closeParen r1).map fun ⟨r2, h2⟩ =>
            (inner, ⟨r2, Nat.lt_trans h2 (Nat.lt_trans h1 h)⟩)
      | _ => .error (.unexpectedToken t .termOrParen)
    factor.bind fun (left, ⟨r1, h1⟩) =>
      (connective? r1).bind fun
        | none => .ok (left, ⟨r1, h1⟩)
        | some (c, ⟨r2, h2⟩) =>
          (expression r2).map fun (right, ⟨r3, h3⟩) =>
            (.joined c left right, ⟨r3, Nat.lt_trans h3 (Nat.lt_trans h2 h1)⟩)
termination_by ts.length
decreasing_by
  · exact h
  · exact Nat.lt_trans h2 h1

/-- the filter at the start of a stream, if there is one -/
def filter : (ts : TokenStream) → Except Error (Option Filter × Tail ts)
  | [] => .ok (none, ⟨[], Nat.le_refl _⟩)
  | .error e :: _ => .error e
  | .ok t :: rest =>
    match t.token with
    | .filterStart =>
      (expression rest).bind fun (f, ⟨r1, h1⟩) =>
        (filterEnd r1).map fun ⟨r2, h2⟩ =>
          (some f, ⟨r2, Nat.le_succ_of_le (Nat.le_of_lt (Nat.lt_trans h2 h1))⟩)
    | _ => .ok (none, ⟨.ok t :: rest, Nat.le_refl _⟩)

/-! ## members -/

/-- the class that a relationship is cast to has to be its target or one of the target's
variants -/
def checkCast (s : Schema) (r : Relationship) (model cast : String) : Except Error Unit :=
  (s.modelNamed cast).bind fun _ =>
    if s.isVariantOf cast r.target then .ok ()
    else .error (.invalidCast model r.name r.target cast)

/-- the model of a block for a relationship: that of the cast, if there is one, or the target -/
def blockModel (s : Schema) (r : Relationship) (model : String) :
    (ts : TokenStream) → Except Error (String × Tail ts)
  | [] => .ok (r.target, ⟨[], Nat.le_refl _⟩)
  | .error e :: _ => .error e
  | .ok t :: rest =>
    match t.token with
    | .cast cast => (checkCast s r model cast).map fun _ => (cast, ⟨rest, Nat.le_succ _⟩)
    | _ => .ok (r.target, ⟨.ok t :: rest, Nat.le_refl _⟩)

/-- the members of a block up to the brace that closes it -/
def body (s : Schema) (model : String) (ts : TokenStream) : Result (List Member) ts :=
  match ts with
  | [] => .error (.unterminatedBlock model)
  | .error e :: _ => .error e
  | .ok t :: rest =>
    match t.token with
    | .close => .ok ([], ⟨rest, Nat.lt_succ_self _⟩)
    | .attr name =>
      (s.attributeOf model name).bind fun a =>
        (filter rest).bind fun (f, ⟨r1, h1⟩) =>
          (body s model r1).map fun (members, ⟨r2, h2⟩) =>
            (.attribute a f :: members, ⟨r2, Nat.lt_succ_of_lt (Nat.lt_of_lt_of_le h2 h1)⟩)
    | .relationshipOpen name =>
      (s.relationshipOf model name).bind fun r =>
        (blockModel s r model rest).bind fun (block, ⟨r1, h1⟩) =>
          (body s block r1).bind fun (children, ⟨r2, h2⟩) =>
            (body s model r2).map fun (members, ⟨r3, h3⟩) =>
              (.relationship r block children :: members,
                ⟨r3, Nat.lt_succ_of_lt
                  (Nat.lt_of_lt_of_le (Nat.lt_trans h3 h2) h1)⟩)
    | _ => .error (.unexpectedToken t .member)
termination_by ts.length
decreasing_by
  · exact Nat.lt_succ_of_le h1
  · exact Nat.lt_succ_of_le h1
  · exact Nat.lt_succ_of_lt (Nat.lt_of_lt_of_le h2 h1)

/-- no token may follow the query -/
def finish : TokenStream → Except Error Unit
  | [] => .ok ()
  | .error e :: _ => .error e
  | .ok t :: _ => .error (.unexpectedToken t .endOfQuery)

end Parse

namespace Query

def ofTokens (s : Schema) (ts : TokenStream) : Except Error Query :=
  (Parse.next .rootOpen ts).bind fun (t, ⟨rest, _⟩) =>
    match t.token with
    | .rootOpen model =>
      (s.modelNamed model).bind fun _ =>
        (Parse.body s model rest).bind fun (children, ⟨rest, _⟩) =>
          (Parse.finish rest).map fun _ => ⟨model, children⟩
    | _ => .error (.unexpectedToken t .rootOpen)

def ofText (s : Schema) (text : String) : Except Error Query := ofTokens s (tokenize text)

end Query

end NestedQuery
