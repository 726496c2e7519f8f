import NestedQuery.Proofs.Outcome
import NestedQuery.Proofs.Query.Filter.Lexing
import NestedQuery.Proofs.Query.Grammar
import NestedQuery.Query.Filter.Tokens

/-!
# Filters and their texts

A filter whose terms keep the rules has the tokens of its texts, with any parentheses that the
grammar allows.

* `Term.Suited`, `Filter.Regular`   the rules for a term, and for the terms of a filter together;
* `Token.lexemes`                   the lexemes of a token in a filter;
* `Filter.Written`                  the texts of a filter between its brackets;
* `Filter.scans_derives`            the scanner goes through the lexemes of a filter;
* `Filter.Regular.tokens_written`   a text of a filter has tokens that stand for it.
-/

namespace NestedQuery

/-! ## rules -/

/-- a scalar, or a list of scalars of one kind with at least one item -/
inductive Literal.Flat : Literal → Prop
  | scalar {l : Literal} (h : l.isList = false) : Flat l
  | list {items : List Literal} (hne : items ≠ []) (hscalar : ∀ i ∈ items, i.isList = false)
      (hkind : ∀ i ∈ items, ∀ j ∈ items, i.kind? = j.kind?) : Flat (.list items)

/-- a list stands after `in` and nowhere else, and a boolean after `==` only -/
structure Term.Suited (t : Term) : Prop where
  flat : t.literal.Flat
  list_iff : t.literal.isList = true ↔ t.operator = .isIn
  boolean : t.literal.kind? = some .boolean → t.operator = .eq

namespace Filter

/-- the terms of a filter, from left to right -/
def leaves : Filter → List Term
  | term t => [t]
  | joined _ l r => l.leaves ++ r.leaves

/-- the rules for a filter: all of its terms are about the row itself or none is, and all literals
are of one kind -/
structure Regular (f : Filter) : Prop where
  suited : ∀ t ∈ f.leaves, t.Suited
  selectors : ∀ t ∈ f.leaves, ∀ u ∈ f.leaves, t.selector = .star ↔ u.selector = .star
  kinds : ∀ t ∈ f.leaves, ∀ u ∈ f.leaves, t.literal.kind? = u.literal.kind?

end Filter

theorem Selector.isQuantified_congr {s s' : Selector} (h : s = .star ↔ s' = .star) :
    s.isQuantified = s'.isQuantified := by
  cases s <;> cases s' <;> simp_all [Selector.isQuantified]

/-! ## lexemes of a filter -/

mutual

/-- the lexemes of a literal; commas stand between the items of a list -/
def Literal.lexemes : Literal → List Lexeme
  | .string s => [.string s]
  | .integer n => [.integer n]
  | .boolean b => [.boolean b]
  | .list items => .openBracket :: Literal.itemLexemes items

/-- the lexemes of the items of a list and of the bracket after them -/
def Literal.itemLexemes : List Literal → List Lexeme
  | [] => [.closeBracket]
  | [item] => Literal.lexemes item ++ [.closeBracket]
  | item :: next :: rest =>
    Literal.lexemes item ++ .comma :: Literal.itemLexemes (next :: rest)

end

def Term.lexemes (t : Term) : List Lexeme :=
  .selector t.selector :: .operator t.operator :: t.literal.lexemes

/-- the lexemes of a token between the brackets of a filter -/
def Token.lexemes : Token → List Lexeme
  | .openParen => [.openParen]
  | .closeParen => [.closeParen]
  | .connective c => [.connective c]
  | .term t => t.lexemes
  | _ => []

/-- the texts of a filter between its brackets, with any parentheses and any gaps -/
def Filter.Written (f : Filter) (text : List Char) : Prop :=
  ∃ tokens, Derives .expression tokens f ∧ Lexeme.Spaced (tokens.flatMap Token.lexemes) text

/-! ## which lexemes stand beside each other -/

/-- a scalar is one lexeme -/
theorem Literal.exists_scalar {l : Literal} (h : l.isList = false) :
    ∃ x, l.lexemes = [x] ∧ x.literal? = some l ∧ x ≠ .openBracket := by
  cases l with
  | string s => exact ⟨.string s, rfl, rfl, nofun⟩
  | integer n => exact ⟨.integer n, rfl, rfl, nofun⟩
  | boolean b => exact ⟨.boolean b, rfl, rfl, nofun⟩
  | list items => cases h

/-- whatever stands before a lexeme that is no integer and no operator suits it -/
theorem Lexeme.before_scalar {l : Literal} {x y : Lexeme} (hy : y.literal? = some l)
    (hword : x.isWord = false) (hinteger : ∀ n, x ≠ .integer n) : x.Before y := by
  cases y with
  | integer n => exact ⟨hword, hinteger⟩
  | string s => exact True.intro
  | boolean b => exact True.intro
  | openParen | closeParen | openBracket | closeBracket | comma | selector | operator
    | connective => cases hy

/-- the items of a list, after a bracket or a comma -/
theorem isChain_itemLexemes {items : List Literal} (hscalar : ∀ i ∈ items, i.isList = false)
    {x : Lexeme} (hword : x.isWord = false) (hinteger : ∀ n, x ≠ .integer n) :
    (x :: Literal.itemLexemes items).IsChain Lexeme.Before := by
  induction items generalizing x with
  | nil => exact List.isChain_pair.mpr True.intro
  | cons item rest ih =>
    obtain ⟨hitem, hrest⟩ := List.forall_mem_cons.mp hscalar
    obtain ⟨y, hy, hliteral, -⟩ := Literal.exists_scalar hitem
    have hbefore := Lexeme.before_scalar hliteral hword hinteger
    cases rest with
    | nil =>
      rw [Literal.itemLexemes, hy]
      exact .cons_cons hbefore (List.isChain_pair.mpr True.intro)
    | cons next rest =>
      rw [Literal.itemLexemes, hy]
      exact .cons_cons hbefore (.cons_cons True.intro (ih hrest rfl nofun))

theorem Term.isChain_lexemes {t : Term} (ht : t.Suited) : t.lexemes.IsChain Lexeme.Before := by
  obtain ⟨selector, op, literal⟩ := t
  refine .cons_cons ⟨selector, rfl⟩ ?_
  cases ht.flat with
  | scalar h =>
    obtain ⟨y, hy, hliteral, -⟩ := Literal.exists_scalar h
    have hop : op.takesList = false := by
      cases op with
      | isIn => exact absurd (ht.list_iff.mpr rfl) (Bool.eq_false_iff.mp h)
      | eq | ne | gt | lt | ge | le => rfl
    show (.operator op :: literal.lexemes).IsChain Lexeme.Before
    rw [hy]
    exact List.isChain_pair.mpr (Lexeme.before_scalar hliteral hop nofun)
  | list hne hscalar hkind =>
    exact .cons_cons True.intro (isChain_itemLexemes hscalar rfl nofun)

/-- a lexeme that may stand anywhere as far as it depends on the one before it -/
def Lexeme.IsFree (y : Lexeme) : Prop := ∀ x : Lexeme, x.Before y

theorem isChain_append_free {xs ys : List Lexeme} (hxs : xs.IsChain Lexeme.Before)
    (hys : ys.IsChain Lexeme.Before) (hfree : ∀ y ∈ ys.head?, y.IsFree) :
    (xs ++ ys).IsChain Lexeme.Before :=
  List.isChain_append.mpr ⟨hxs, hys, fun x _ y hy => hfree y hy x⟩

/-! ## terms -/

theorem Operator.takesList_iff (op : Operator) : op.takesList = true ↔ op = .isIn := by
  cases op <;> decide

theorem Filter.terms_paren (ts : List Token) :
    terms (.openParen :: (ts ++ [.closeParen])) = terms ts := by
  show terms (ts ++ [.closeParen]) = _
  rw [terms, List.filterMap_append]
  exact List.append_nil _

theorem Filter.terms_joined (ts us : List Token) (c : Connective) :
    terms (ts ++ .connective c :: us) = terms ts ++ terms us := List.filterMap_append

namespace Filter.Derives

variable {part : Part} {tokens : List Token} {f : Filter}

/-- a filter starts with a parenthesis or a selector -/
theorem exists_free (h : Derives part tokens f) :
    ∃ y ys, tokens.flatMap Token.lexemes = y :: ys ∧ y.IsFree := by
  induction h with
  | term t => exact ⟨_, _, rfl, fun _ => True.intro⟩
  | paren _ _ => exact ⟨_, _, rfl, fun _ => True.intro⟩
  | single _ ih => exact ih
  | joined c _ _ ih _ =>
    obtain ⟨y, ys, hy, hfree⟩ := ih
    exact ⟨y, _, by rw [List.flatMap_append, hy]; rfl, hfree⟩

theorem isFree_head (h : Derives part tokens f) :
    ∀ y ∈ (tokens.flatMap Token.lexemes).head?, y.IsFree := by
  obtain ⟨y, ys, hy, hfree⟩ := h.exists_free
  rw [hy]
  intro x hx
  cases Option.mem_some.mp hx
  exact hfree

theorem isChain_lexemes (h : Derives part tokens f) (hf : ∀ t ∈ f.leaves, t.Suited) :
    (tokens.flatMap Token.lexemes).IsChain Lexeme.Before := by
  induction h with
  | term t =>
    rw [List.flatMap_singleton]
    exact Term.isChain_lexemes (hf t (List.mem_singleton_self t))
  | @paren ts f h ih =>
    rw [List.flatMap_cons, List.flatMap_append]
    refine isChain_append_free (.singleton _) (isChain_append_free (ih hf) (.singleton _) ?_) ?_
    · exact fun y hy x => by cases Option.mem_some.mp hy; exact True.intro
    · obtain ⟨y, ys, hy, hfree⟩ := h.exists_free
      rw [hy]
      exact fun x hx => by cases Option.mem_some.mp hx; exact hfree
  | single _ ih => exact ih hf
  | @joined ts us l r c hl hr ihl ihr =>
    obtain ⟨hfl, hfr⟩ := List.forall_mem_append.mp hf
    rw [List.flatMap_append, List.flatMap_cons]
    have hlink := isChain_append_free (.singleton (.connective c)) (ihr hfr) hr.isFree_head
    refine isChain_append_free (ihl hfl) hlink fun y hy x => ?_
    cases Option.mem_some.mp hy
    exact True.intro

/-- the terms of a filter are those among its tokens -/
theorem terms_eq (h : Derives part tokens f) : terms tokens = f.leaves := by
  induction h with
  | term t => rfl
  | paren _ ih =>
    rw [terms_paren]
    exact ih
  | single _ ih => exact ih
  | joined _ _ _ ihl ihr =>
    rw [terms_joined, ihl, ihr]
    rfl

end Filter.Derives

/-! ## the scanner -/

namespace Filter

theorem completed_eq {t : Term} (ht : t.Suited) :
    completed t.selector t.operator t.literal = .ok t := by
  have hlist : t.operator.takesList = t.literal.isList := by
    rw [Bool.eq_iff_iff, ht.list_iff]
    exact t.operator.takesList_iff
  rw [completed, if_neg (not_not.mpr hlist), if_neg fun h => h.2 (ht.boolean h.1)]

/-- the state of the scanner after some lexemes, and the tokens that these complete -/
def Scans (stop : Nat) (s : State) (lexemes : List Lexeme) (tokens : List Token) (s' : State) :
    Prop :=
  ∀ (placed more : List Placed), placed.map Placed.lexeme = lexemes →
    scan stop s (placed ++ more) = (scan stop s' more).map (tokens ++ ·)

variable {stop : Nat}

/-- one more lexeme in front, on whose column the next state may depend -/
theorem Scans.cons_at {s s'' : State} {next : Nat → State} {x : Lexeme} {xs : List Lexeme}
    {ts us : List Token} (hx : ∀ column, step s ⟨column, x⟩ = .ok (ts, next column))
    (hxs : ∀ column, Scans stop (next column) xs us s'') :
    Scans stop s (x :: xs) (ts ++ us) s'' := by
  intro placed more hplaced
  obtain ⟨⟨column, y⟩, placed, rfl, rfl, hmap⟩ := List.map_eq_cons_iff.mp hplaced
  rw [List.cons_append, scan_cons, hx, bind_ok, hxs column placed more hmap]
  cases scan stop s'' more with
  | error e => rfl
  | ok tokens => exact congrArg Except.ok (List.append_assoc ts us tokens).symm

theorem Scans.cons {s s' s'' : State} {x : Lexeme} {xs : List Lexeme} (ts : List Token)
    {us : List Token} (hx : ∀ column, step s ⟨column, x⟩ = .ok (ts, s'))
    (hxs : Scans stop s' xs us s'') : Scans stop s (x :: xs) (ts ++ us) s'' :=
  .cons_at hx fun _ => hxs

theorem Scans.nil (s : State) : Scans stop s [] [] s := by
  intro placed more hplaced
  rw [List.map_eq_nil_iff.mp hplaced]
  show scan stop s more = _
  cases scan stop s more <;> rfl

theorem Scans.append {s s' s'' : State} {xs ys : List Lexeme} {ts us : List Token}
    (hxs : Scans stop s xs ts s') (hys : Scans stop s' ys us s'') :
    Scans stop s (xs ++ ys) (ts ++ us) s'' := by
  intro placed more hplaced
  obtain ⟨before, after, rfl, hbefore, hafter⟩ := List.map_eq_append_iff.mp hplaced
  rw [List.append_assoc, hxs before _ hbefore, hys after more hafter]
  cases scan stop s'' more with
  | error e => rfl
  | ok tokens => exact congrArg Except.ok (List.append_assoc ts us tokens).symm

theorem clash_self (k : Option LiteralKind) : clash k k = none := by
  cases k with
  | none => rfl
  | some k => exact if_pos rfl

theorem extended_eq {items : List Literal} {item : Literal}
    (h : ∀ i ∈ items, i.kind? = item.kind?) : extended items item = .ok (items ++ [item]) := by
  have hclash : clash (Literal.list items).kind? item.kind? = none := by
    cases items with
    | nil =>
      rw [Literal.kind?]
      rfl
    | cons i items => rw [Literal.kind?, h i List.mem_cons_self, clash_self]
  rw [extended, hclash]

section
variable {t : Term} (ht : t.Suited) (depth : Nat)
include ht

theorem finishTerm_eq {expecting : Expecting} {literal : Literal} (hl : literal = t.literal) :
    finishTerm ⟨depth, expecting⟩ t.selector t.operator literal =
      .ok ([.term t], ⟨depth, .connective⟩) := by
  rw [finishTerm, hl, completed_eq ht]

/-- the items of a list after those that were read; the induction is on what is left of them -/
theorem scans_items {opened : Nat} {items rest : List Literal} (hne : rest ≠ [])
    (hliteral : t.literal = .list (items ++ rest)) (hscalar : ∀ i ∈ rest, i.isList = false)
    (hkind : ∀ i ∈ items ++ rest, ∀ j ∈ items ++ rest, i.kind? = j.kind?) :
    Scans stop ⟨depth, .element t.selector t.operator opened items⟩ (Literal.itemLexemes rest)
      [.term t] ⟨depth, .connective⟩ := by
  induction rest generalizing items with
  | nil => exact absurd rfl hne
  | cons item rest ih =>
    obtain ⟨hitem, hrest⟩ := List.forall_mem_cons.mp hscalar
    obtain ⟨x, hx, hxl, -⟩ := Literal.exists_scalar hitem
    have hmem : item ∈ items ++ item :: rest := List.mem_append_right _ List.mem_cons_self
    have hextended : extended items item = .ok (items ++ [item]) :=
      extended_eq fun i hi => hkind i (List.mem_append_left _ hi) item hmem
    have hstep : ∀ column,
        step ⟨depth, .element t.selector t.operator opened items⟩ ⟨column, x⟩ =
          .ok ([], ⟨depth, .separator t.selector t.operator opened (items ++ [item])⟩) := by
      intro column
      show stepElement _ _ _ _ _ _ = _
      rw [stepElement]
      dsimp only
      rw [hxl]
      dsimp only
      rw [hextended]
      rfl
    cases rest with
    | nil =>
      rw [Literal.itemLexemes, hx]
      refine .cons [] hstep (.cons [.term t] (fun _ => ?_) (.nil _))
      exact finishTerm_eq ht depth hliteral.symm
    | cons next rest =>
      rw [Literal.itemLexemes, hx]
      refine .cons [] hstep (.cons [] (fun _ => rfl) ?_)
      rw [List.append_cons] at hliteral hkind
      exact ih (List.cons_ne_nil _ _) hliteral hrest hkind

theorem scans_literal : Scans stop ⟨depth, .value t.selector t.operator⟩ t.literal.lexemes
    [.term t] ⟨depth, .connective⟩ := by
  obtain ⟨selector, op, literal⟩ := t
  cases ht.flat with
  | scalar h =>
    obtain ⟨x, hx, hxl, hbracket⟩ := Literal.exists_scalar h
    show Scans stop _ literal.lexemes _ _
    rw [hx]
    refine .cons [.term _] (fun column => ?_) (.nil _)
    show stepValue _ _ _ _ = _
    rw [stepValue, if_neg hbracket]
    dsimp only
    rw [hxl]
    exact finishTerm_eq ht depth rfl
  | @list items hne hscalar hkind =>
    have hitems : ∀ opened, Scans stop ⟨depth, .element selector op opened []⟩
        (Literal.itemLexemes items) [.term ⟨selector, op, .list items⟩] ⟨depth, .connective⟩ :=
      fun opened => scans_items ht depth hne rfl hscalar hkind
    exact .cons_at (fun column => show step ⟨depth, .value selector op⟩ ⟨column, .openBracket⟩ =
      .ok ([], ⟨depth, .element selector op column []⟩) from rfl) hitems

theorem scans_term : Scans stop ⟨depth, .term⟩ t.lexemes [.term t] ⟨depth, .connective⟩ :=
  .cons [] (fun _ => rfl) (.cons [] (fun _ => rfl) (scans_literal ht depth))

end

/-- the scanner goes through the lexemes of a filter, and stands at the same depth after them -/
theorem scans_derives {part : Part} {tokens : List Token} {f : Filter}
    (h : Derives part tokens f) (hf : ∀ t ∈ f.leaves, t.Suited) (depth : Nat) :
    Scans stop ⟨depth, .term⟩ (tokens.flatMap Token.lexemes) tokens ⟨depth, .connective⟩ := by
  induction h generalizing depth with
  | term t =>
    rw [List.flatMap_singleton]
    exact scans_term (hf t (List.mem_singleton_self t)) depth
  | paren h ih =>
    rw [List.flatMap_cons, List.flatMap_append]
    exact .cons [.openParen] (fun _ => rfl)
      ((ih hf (depth + 1)).append (.cons [.closeParen] (fun _ => rfl) (.nil _)))
  | single _ ih => exact ih hf depth
  | joined c hl hr ihl ihr =>
    obtain ⟨hfl, hfr⟩ := List.forall_mem_append.mp hf
    rw [List.flatMap_append, List.flatMap_cons]
    exact (ihl hfl depth).append (.cons [.connective c] (fun _ => rfl) (ihr hfr depth))

/-! ## the whole filter -/

theorem leaves_ne_nil (f : Filter) : f.leaves ≠ [] := by
  induction f with
  | term t => exact List.cons_ne_nil _ _
  | joined c l r ihl ihr => exact List.append_ne_nil_of_left_ne_nil ihl _

theorem Regular.uniform_leaves {f : Filter} (hf : f.Regular) : uniform f.leaves = .ok () := by
  obtain ⟨first, rest, hleaves⟩ := List.exists_cons_of_ne_nil f.leaves_ne_nil
  have hfirst : first ∈ f.leaves := hleaves ▸ List.mem_cons_self
  have hrest : ∀ t ∈ rest, t ∈ f.leaves := fun t ht => hleaves ▸ List.mem_cons_of_mem _ ht
  have hselectors : ¬(rest.any fun t =>
      t.selector.isQuantified != first.selector.isQuantified) = true := by
    rw [List.any_eq_true]
    rintro ⟨t, ht, hne⟩
    rw [Selector.isQuantified_congr (hf.selectors t (hrest t ht) first hfirst), bne_self_eq_false]
      at hne
    cases hne
  have hkinds : (rest.findSome? fun t => clash first.literal.kind? t.literal.kind?) = none :=
    List.findSome?_eq_none_iff.mpr fun t ht => by
      rw [hf.kinds first hfirst t (hrest t ht), clash_self]
  rw [hleaves, uniform, if_neg hselectors, hkinds]

/-- a filter has its tokens where a text has their lexemes -/
theorem Regular.tokens_lexemes {f : Filter} (hf : f.Regular) {ts : List Token}
    (hts : Derives .expression ts f) {start : Nat} {text : List Char} {placed : List Placed}
    (hplaced : lexemes start text = .ok placed)
    (hmap : placed.map Placed.lexeme = ts.flatMap Token.lexemes) :
    tokens start text = .ok (.filterStart :: (ts ++ [.filterEnd])) := by
  have hscan : scan (start + text.length) ⟨0, .term⟩ (placed ++ []) = .ok (ts ++ []) :=
    scans_derives hts hf.suited 0 placed [] hmap
  rw [List.append_nil, List.append_nil] at hscan
  rw [tokens, hplaced]
  dsimp only
  rw [hscan, bind_ok, hts.terms_eq, hf.uniform_leaves]
  rfl

/-- a text of a filter has tokens that stand for it -/
theorem Regular.tokens_written {f : Filter} (hf : f.Regular) {text : List Char}
    (h : f.Written text) :
    ∃ ts, Derives .expression ts f ∧
      ∀ start, tokens start text = .ok (.filterStart :: (ts ++ [.filterEnd])) := by
  obtain ⟨ts, hts, hspaced⟩ := h
  refine ⟨ts, hts, fun start => ?_⟩
  obtain ⟨placed, hplaced, hmap⟩ := lexemes_spaced hspaced (hts.isChain_lexemes hf.suited) start
  exact hf.tokens_lexemes hts hplaced hmap

end Filter

end NestedQuery
