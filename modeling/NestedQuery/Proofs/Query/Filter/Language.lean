import NestedQuery.Proofs.Lists
import NestedQuery.Proofs.Query.Filter.Scanning

/-!
# The language of filters

Which texts between brackets are filters.  The grammar is one of lexemes,

    expression   := factor (connective expression)?
    factor       := selector operator value | openParen expression closeParen
    value        := scalar | openBracket scalar (comma scalar)* closeBracket

and the rules that it does not tell are those for the terms of one filter together.

* `Literal.Spelled`, `Filter.Phrase`   the grammar, with the literals and tokens that lexemes
                                       stand for;
* `Filter.Consistent`                  the rules for terms;
* `Filter.Begins`                      lexemes at the start of some others that stand for a part;
* `Filter.begins_expression`           whatever the scanner accepts starts with an expression;
* `Filter.tokens_eq_ok_iff`            the tokens of a text are those that the grammar gives.

The scanner counts open parentheses, and the grammar does not.  What ties the two is `Closing`: the
scanner goes on after an expression with the parenthesis that closes it, or it is at the end.
-/

namespace NestedQuery

/-! ## the grammar -/

/-- items with commas between them, and the bracket after the last one -/
inductive Literal.Listed : List Lexeme → List Literal → Prop
  | last {x : Lexeme} {l : Literal} (h : x.literal? = some l) : Listed [x, .closeBracket] [l]
  | more {x : Lexeme} {l : Literal} {xs : List Lexeme} {items : List Literal}
      (h : x.literal? = some l) (hrest : Listed xs items) :
      Listed (x :: .comma :: xs) (l :: items)

inductive Literal.Spelled : List Lexeme → Literal → Prop
  | scalar {x : Lexeme} {l : Literal} (h : x.literal? = some l) : Spelled [x] l
  | list {xs : List Lexeme} {items : List Literal} (h : Listed xs items) :
      Spelled (.openBracket :: xs) (.list items)

namespace Filter

/-- lexemes that stand for a part of a filter, with the tokens of that part -/
inductive Phrase : Part → List Lexeme → List Token → Prop
  | term (selector : Selector) (op : Operator) {xs : List Lexeme} {l : Literal}
      (h : Literal.Spelled xs l) :
      Phrase .factor (.selector selector :: .operator op :: xs) [.term ⟨selector, op, l⟩]
  | paren {xs : List Lexeme} {ts : List Token} (h : Phrase .expression xs ts) :
      Phrase .factor (.openParen :: (xs ++ [.closeParen])) (.openParen :: (ts ++ [.closeParen]))
  | single {xs : List Lexeme} {ts : List Token} (h : Phrase .factor xs ts) :
      Phrase .expression xs ts
  | joined {xs ys : List Lexeme} {ts us : List Token} (c : Connective) (hl : Phrase .factor xs ts)
      (hr : Phrase .expression ys us) :
      Phrase .expression (xs ++ .connective c :: ys) (ts ++ .connective c :: us)

/-- the rules for the terms of one filter -/
structure Consistent (ts : List Term) : Prop where
  list_iff : ∀ t ∈ ts, t.literal.isList = true ↔ t.operator = .isIn
  boolean : ∀ t ∈ ts, t.literal.kind? = some .boolean → t.operator = .eq
  items : ∀ t ∈ ts, ∀ items, t.literal = .list items →
    ∀ i ∈ items, ∀ j ∈ items, i.kind? = j.kind?
  selectors : (∀ t ∈ ts, t.selector = .star) ∨ ∀ t ∈ ts, t.selector ≠ .star
  kinds : ∀ t ∈ ts, ∀ u ∈ ts, t.literal.kind? = u.literal.kind?

end Filter

/-! ## phrases and filters -/

theorem Lexeme.lexemes_of_literal? {x : Lexeme} {l : Literal} (h : x.literal? = some l) :
    l.lexemes = [x] ∧ l.isList = false := by
  cases x <;> cases h <;> exact ⟨rfl, rfl⟩

theorem Literal.Listed.lexemes_eq {xs : List Lexeme} {items : List Literal} (h : Listed xs items) :
    items ≠ [] ∧ itemLexemes items = xs ∧ ∀ i ∈ items, i.isList = false := by
  induction h with
  | last h =>
    obtain ⟨hx, hscalar⟩ := Lexeme.lexemes_of_literal? h
    refine ⟨List.cons_ne_nil _ _, ?_, List.forall_mem_singleton.mpr hscalar⟩
    rw [itemLexemes, hx]
    rfl
  | @more x l xs items h _ ih =>
    obtain ⟨hx, hscalar⟩ := Lexeme.lexemes_of_literal? h
    obtain ⟨hne, hrest, hall⟩ := ih
    refine ⟨List.cons_ne_nil _ _, ?_, List.forall_mem_cons.mpr ⟨hscalar, hall⟩⟩
    obtain ⟨next, rest, rfl⟩ := List.exists_cons_of_ne_nil hne
    rw [itemLexemes, hx, hrest]
    rfl

theorem Literal.Spelled.lexemes_eq {xs : List Lexeme} {l : Literal} (h : Spelled xs l) :
    l.lexemes = xs := by
  cases h with
  | scalar h => exact (Lexeme.lexemes_of_literal? h).1
  | list h => rw [lexemes, h.lexemes_eq.2.1]

theorem Literal.Spelled.flat {xs : List Lexeme} {l : Literal} (h : Spelled xs l)
    (hkind : ∀ items, l = .list items → ∀ i ∈ items, ∀ j ∈ items, i.kind? = j.kind?) :
    l.Flat := by
  cases h with
  | scalar h => exact .scalar (Lexeme.lexemes_of_literal? h).2
  | list h =>
    obtain ⟨hne, -, hscalar⟩ := h.lexemes_eq
    exact .list hne hscalar (hkind _ rfl)

namespace Filter

section
variable {part : Part} {xs : List Lexeme} {ts : List Token}

/-- a phrase stands for a filter with its terms, and is made of the lexemes of its tokens -/
theorem Phrase.derives (h : Phrase part xs ts) :
    ts.flatMap Token.lexemes = xs ∧ ∃ f, Derives part ts f ∧ f.leaves = terms ts := by
  induction h with
  | term selector op h =>
    refine ⟨?_, _, .term _, rfl⟩
    show (Term.lexemes _) ++ [] = _
    rw [List.append_nil, Term.lexemes, h.lexemes_eq]
  | paren h ih =>
    obtain ⟨hxs, f, hf, -⟩ := ih
    refine ⟨?_, f, .paren hf, (Derives.paren hf).terms_eq.symm⟩
    rw [List.flatMap_cons, List.flatMap_append, hxs]
    rfl
  | single h ih =>
    obtain ⟨hxs, f, hf, hleaves⟩ := ih
    exact ⟨hxs, f, .single hf, hleaves⟩
  | joined c hl hr ihl ihr =>
    obtain ⟨hxs, l, hdl, -⟩ := ihl
    obtain ⟨hys, r, hdr, -⟩ := ihr
    refine ⟨?_, _, .joined c hdl hdr, (Derives.joined c hdl hdr).terms_eq.symm⟩
    rw [List.flatMap_append, List.flatMap_cons, hxs, hys]
    rfl

theorem Phrase.flat (h : Phrase part xs ts) (hts : Consistent (terms ts)) :
    ∀ t ∈ terms ts, t.literal.Flat := by
  have hitems := hts.items
  clear hts
  induction h with
  | term selector op h =>
    exact List.forall_mem_singleton.mpr (h.flat (hitems _ (List.mem_singleton_self _)))
  | @paren xs ts h ih =>
    rw [terms_paren] at hitems ⊢
    exact ih hitems
  | single h ih => exact ih hitems
  | @joined xs ys ts us c hl hr ihl ihr =>
    rw [terms_joined] at hitems ⊢
    obtain ⟨hl, hr⟩ := List.forall_mem_append.mp hitems
    exact List.forall_mem_append.mpr ⟨ihl hl, ihr hr⟩

theorem Phrase.regular (h : Phrase part xs ts) (hts : Consistent (terms ts)) {f : Filter}
    (hf : f.leaves = terms ts) : f.Regular := by
  have hflat := h.flat hts
  rw [← hf] at hts hflat
  refine ⟨fun t ht => ⟨hflat t ht, hts.list_iff t ht, hts.boolean t ht⟩, fun t ht u hu => ?_,
    hts.kinds⟩
  rcases hts.selectors with hstar | hother
  · exact iff_of_true (hstar t ht) (hstar u hu)
  · exact iff_of_false (hother t ht) (hother u hu)

end

/-! ## steps of the scanner -/

section
variable {s s' : State} {us : List Token} {selector : Selector} {op : Operator} {p : Placed}

theorem stepTerm_eq_ok (h : stepTerm s p = .ok (us, s')) :
    (p.lexeme = .openParen ∧ us = [.openParen] ∧ s' = ⟨s.depth + 1, .term⟩) ∨
      ∃ selector, p.lexeme = .selector selector ∧ us = [] ∧
        s' = ⟨s.depth, .operator selector⟩ := by
  unfold stepTerm at h
  split at h
  · rename_i hp
    cases h
    exact .inl ⟨hp, rfl, rfl⟩
  · rename_i selector hp
    cases h
    exact .inr ⟨selector, hp, rfl, rfl⟩
  · cases h

theorem stepOperator_eq_ok (h : stepOperator s selector p = .ok (us, s')) :
    ∃ op, p.lexeme = .operator op ∧ us = [] ∧ s' = ⟨s.depth, .value selector op⟩ := by
  unfold stepOperator at h
  split at h
  · rename_i op hp
    cases h
    exact ⟨op, hp, rfl, rfl⟩
  · cases h

theorem stepValue_eq_ok (h : stepValue s selector op p = .ok (us, s')) :
    (p.lexeme = .openBracket ∧ us = [] ∧ s' = ⟨s.depth, .element selector op p.column []⟩) ∨
      ∃ l, p.lexeme.literal? = some l ∧ finishTerm s selector op l = .ok (us, s') := by
  unfold stepValue at h
  split at h
  · rename_i hp
    cases h
    exact .inl ⟨hp, rfl, rfl⟩
  · split at h
    · rename_i l hl
      exact .inr ⟨l, hl, h⟩
    · cases h

theorem stepElement_eq_ok {opened : Nat} {items : List Literal}
    (h : stepElement s selector op opened items p = .ok (us, s')) :
    ∃ item items', p.lexeme.literal? = some item ∧ extended items item = .ok items' ∧ us = [] ∧
      s' = ⟨s.depth, .separator selector op opened items'⟩ := by
  unfold stepElement at h
  split at h
  · rename_i item hitem
    split at h
    · cases h
    · rename_i items' he
      cases h
      exact ⟨item, items', hitem, he, rfl, rfl⟩
  · split at h <;> cases h

theorem stepSeparator_eq_ok {opened : Nat} {items : List Literal}
    (h : stepSeparator s selector op opened items p = .ok (us, s')) :
    (p.lexeme = .comma ∧ us = [] ∧ s' = ⟨s.depth, .element selector op opened items⟩) ∨
      (p.lexeme = .closeBracket ∧ finishTerm s selector op (.list items) = .ok (us, s')) := by
  unfold stepSeparator at h
  split at h
  · rename_i hp
    cases h
    exact .inl ⟨hp, rfl, rfl⟩
  · rename_i hp
    exact .inr ⟨hp, h⟩
  · cases h

theorem stepConnective_eq_ok (h : stepConnective s p = .ok (us, s')) :
    (∃ depth, p.lexeme = .closeParen ∧ s.depth = depth + 1 ∧ us = [.closeParen] ∧
        s' = ⟨depth, .connective⟩) ∨
      ∃ c, p.lexeme = .connective c ∧ us = [.connective c] ∧ s' = ⟨s.depth, .term⟩ := by
  unfold stepConnective at h
  split at h
  · rename_i hp
    split at h
    · cases h
    · rename_i depth hdepth
      cases h
      exact .inl ⟨depth, hp, hdepth, rfl, rfl⟩
  · rename_i c hp
    cases h
    exact .inr ⟨c, hp, rfl, rfl⟩
  · cases h

/-! ## what a term needs -/

theorem completed_eq_ok {literal : Literal} {t : Term} (h : completed selector op literal = .ok t)
    (hflat : literal.Flat) : t = ⟨selector, op, literal⟩ ∧ t.Suited := by
  unfold completed at h
  split at h
  · cases h
  rename_i hlist
  split at h
  · cases h
  rename_i hboolean
  cases h
  refine ⟨rfl, hflat, ?_, fun hkind => by_contra fun hop => hboolean ⟨hkind, hop⟩⟩
  rw [← not_not.mp hlist]
  exact op.takesList_iff

theorem finishTerm_eq_ok {literal : Literal} (h : finishTerm s selector op literal = .ok (us, s'))
    (hflat : literal.Flat) :
    us = [.term ⟨selector, op, literal⟩] ∧ s' = ⟨s.depth, .connective⟩ ∧
      Term.Suited ⟨selector, op, literal⟩ := by
  unfold finishTerm at h
  split at h
  · cases h
  · rename_i t ht
    cases h
    obtain ⟨rfl, hsuited⟩ := completed_eq_ok ht hflat
    exact ⟨rfl, rfl, hsuited⟩

end

/-- scalars of one kind -/
structure Alike (items : List Literal) : Prop where
  scalar : ∀ i ∈ items, i.isList = false
  kinds : ∀ i ∈ items, ∀ j ∈ items, i.kind? = j.kind?

theorem exists_kind {l : Literal} (h : l.isList = false) : ∃ k, l.kind? = some k := by
  cases l with
  | string | integer | boolean => exact ⟨_, rfl⟩
  | list => cases h

theorem eq_of_clash {k k' : LiteralKind} (h : clash (some k) (some k') = none) : k = k' := by
  by_contra hne
  rw [clash, if_neg hne] at h
  cases h

theorem alike_nil : Alike [] := ⟨nofun, nofun⟩

/-- an item of the kind of the first one is of the kind of all of them -/
theorem Alike.extended {items items' : List Literal} {item : Literal} (h : Alike items)
    (hitem : item.isList = false) (he : extended items item = .ok items') :
    items' = items ++ [item] ∧ Alike items' := by
  unfold Filter.extended at he
  split at he
  · cases he
  rename_i hclash
  cases he
  obtain ⟨k, hk⟩ := exists_kind hitem
  have hkinds : ∀ i ∈ items ++ [item], i.kind? = item.kind? := by
    refine forall_mem_concat_iff.mpr ⟨fun i hi => ?_, rfl⟩
    obtain ⟨first, rest, rfl⟩ := List.exists_cons_of_ne_nil (List.ne_nil_of_mem hi)
    obtain ⟨k', hk'⟩ := exists_kind (h.scalar first List.mem_cons_self)
    rw [Literal.kind?, hk, hk'] at hclash
    rw [h.kinds i hi first List.mem_cons_self, hk, hk', eq_of_clash hclash]
  refine ⟨rfl, forall_mem_concat_iff.mpr ⟨h.scalar, hitem⟩, fun i hi j hj => ?_⟩
  rw [hkinds i hi, hkinds j hj]

/-! ## runs of the scanner -/

section
variable {stop depth : Nat} {s : State} {placed : List Placed} {ts : List Token}

/-- where the scanner may not end, it takes a step -/
theorem scan_eq_ok (hs : ∃ fault, finish stop s = .error fault)
    (h : scan stop s placed = .ok ts) :
    ∃ p more us s' rest, placed = p :: more ∧ step s p = .ok (us, s') ∧
      scan stop s' more = .ok rest ∧ ts = us ++ rest := by
  cases placed with
  | nil =>
    obtain ⟨fault, hfault⟩ := hs
    rw [scan_nil, hfault] at h
    cases h
  | cons p more =>
    obtain ⟨⟨us, s'⟩, hstep, h⟩ := bind_eq_ok.mp h
    obtain ⟨rest, hrest, rfl⟩ := map_eq_ok.mp h
    exact ⟨p, more, us, s', rest, rfl, hstep, hrest, rfl⟩

section
variable (selector : Selector) (op : Operator)

/-- a literal at the start of some lexemes, with the token of its term and what is left of both -/
def Completes (stop depth : Nat) (Spelled : List Lexeme → Literal → Prop) (placed : List Placed)
    (ts : List Token) : Prop :=
  ∃ front more l rest, placed = front ++ more ∧ Spelled (front.map Placed.lexeme) l ∧
    Term.Suited ⟨selector, op, l⟩ ∧ ts = .term ⟨selector, op, l⟩ :: rest ∧
    scan stop ⟨depth, .connective⟩ more = .ok rest

variable {selector op}

/-- the items after those that were read; the induction is on the lexemes, two for each item -/
theorem completes_items {opened : Nat} {items : List Literal} (hitems : Alike items)
    (h : scan stop ⟨depth, .element selector op opened items⟩ placed = .ok ts) :
    Completes selector op stop depth
      (fun xs l => ∃ others, Literal.Listed xs others ∧ l = .list (items ++ others)) placed ts := by
  obtain ⟨n, hn⟩ : ∃ n, placed.length = n := ⟨_, rfl⟩
  induction n using Nat.strongRecOn generalizing placed items ts with
  | ind n ih =>
    subst hn
    obtain ⟨p, placed, us, s', rest, rfl, hstep, h, rfl⟩ := scan_eq_ok ⟨_, rfl⟩ h
    obtain ⟨item, items', hitem, he, rfl, rfl⟩ := stepElement_eq_ok hstep
    obtain ⟨rfl, halike⟩ := hitems.extended (Lexeme.lexemes_of_literal? hitem).2 he
    obtain ⟨q, placed, us, s', rest, rfl, hstep, h, rfl⟩ := scan_eq_ok ⟨_, rfl⟩ h
    rcases stepSeparator_eq_ok hstep with ⟨hq, rfl, rfl⟩ | ⟨hq, hfinish⟩
    · obtain ⟨front, more, l, rest, rfl, ⟨others, hothers, rfl⟩, hsuited, rfl, hrest⟩ :=
        ih _ (by simp only [List.length_cons]; omega) halike h rfl
      refine ⟨p :: q :: front, more, _, rest, rfl, ⟨item :: others, ?_, ?_⟩, hsuited, rfl, hrest⟩
      · rw [List.map_cons, List.map_cons, hq]
        exact .more hitem hothers
      · rw [List.append_assoc]
        rfl
    · have hne : items ++ [item] ≠ [] := List.append_ne_nil_of_right_ne_nil _ (List.cons_ne_nil _ _)
      obtain ⟨rfl, rfl, hsuited⟩ :=
        finishTerm_eq_ok hfinish (.list hne halike.scalar halike.kinds)
      refine ⟨[p, q], placed, _, rest, rfl, ⟨[item], ?_, rfl⟩, hsuited, rfl, h⟩
      rw [List.map_cons, List.map_singleton, hq]
      exact .last hitem

theorem completes_value (h : scan stop ⟨depth, .value selector op⟩ placed = .ok ts) :
    Completes selector op stop depth Literal.Spelled placed ts := by
  obtain ⟨p, placed, us, s', rest, rfl, hstep, h, rfl⟩ := scan_eq_ok ⟨_, rfl⟩ h
  rcases stepValue_eq_ok hstep with ⟨hp, rfl, rfl⟩ | ⟨l, hl, hfinish⟩
  · obtain ⟨front, more, l, rest, rfl, ⟨others, hothers, rfl⟩, hsuited, rfl, hrest⟩ :=
      completes_items alike_nil h
    refine ⟨p :: front, more, _, rest, rfl, ?_, hsuited, rfl, hrest⟩
    rw [List.map_cons, hp]
    exact .list hothers
  · obtain ⟨rfl, rfl, hsuited⟩ :=
      finishTerm_eq_ok hfinish (.scalar (Lexeme.lexemes_of_literal? hl).2)
    exact ⟨[p], placed, l, rest, rfl, .scalar hl, hsuited, rfl, h⟩

end

/-! ## phrases -/

/-- a part at the start of some lexemes, with its tokens and what is left of both -/
def Begins (part : Part) (placed more : List Placed) (ts rest : List Token) : Prop :=
  ∃ front us, placed = front ++ more ∧ ts = us ++ rest ∧
    Phrase part (front.map Placed.lexeme) us ∧ ∀ t ∈ terms us, t.Suited

/-- what the scanner goes on with after an expression: the parenthesis that closes it, or
nothing -/
inductive Closing (stop : Nat) : Nat → List Placed → List Token → Prop
  | last : Closing stop 0 [] []
  | paren {depth : Nat} {p : Placed} {more : List Placed} {rest : List Token}
      (hp : p.lexeme = .closeParen) (h : scan stop ⟨depth, .connective⟩ more = .ok rest) :
      Closing stop (depth + 1) (p :: more) (.closeParen :: rest)

/-- after a factor the expression goes on with a connective, or ends -/
theorem closing_or_connective (h : scan stop ⟨depth, .connective⟩ placed = .ok ts) :
    Closing stop depth placed ts ∨ ∃ p c more rest, placed = p :: more ∧
      p.lexeme = .connective c ∧ ts = .connective c :: rest ∧
      scan stop ⟨depth, .term⟩ more = .ok rest := by
  cases placed with
  | nil =>
    obtain ⟨u, hu, rfl⟩ := map_eq_ok.mp h
    cases depth with
    | zero => exact .inl .last
    | succ depth => cases hu
  | cons p more =>
    obtain ⟨⟨us, s'⟩, hstep, h⟩ := bind_eq_ok.mp h
    obtain ⟨rest, hrest, rfl⟩ := map_eq_ok.mp h
    rcases stepConnective_eq_ok hstep with ⟨depth, hp, hdepth, rfl, rfl⟩ | ⟨c, hp, rfl, rfl⟩
    · obtain rfl : _ = depth + 1 := hdepth
      exact .inl (.paren hp hrest)
    · exact .inr ⟨p, c, more, rest, rfl, hp, rfl, hrest⟩

/-- a term, or an expression in parentheses if all shorter expressions are known -/
theorem begins_factor
    (hinner : ∀ more us, more.length < placed.length →
      scan stop ⟨depth + 1, .term⟩ more = .ok us →
        ∃ more' rest, Begins .expression more more' us rest ∧ Closing stop (depth + 1) more' rest)
    (h : scan stop ⟨depth, .term⟩ placed = .ok ts) :
    ∃ more rest, Begins .factor placed more ts rest ∧ more.length < placed.length ∧
      scan stop ⟨depth, .connective⟩ more = .ok rest := by
  obtain ⟨p, placed, us, s', rest, rfl, hstep, h, rfl⟩ := scan_eq_ok ⟨_, rfl⟩ h
  rcases stepTerm_eq_ok hstep with ⟨hp, rfl, rfl⟩ | ⟨selector, hp, rfl, rfl⟩
  · obtain ⟨more', rest', ⟨front, us, rfl, rfl, hphrase, hsuited⟩, hclosing⟩ :=
      hinner placed rest (Nat.lt_succ_self _) h
    cases hclosing with
    | @paren _ q more rest hq hmore =>
      refine ⟨more, rest, ⟨p :: (front ++ [q]), .openParen :: (us ++ [.closeParen]), ?_, ?_, ?_,
        ?_⟩, ?_, hmore⟩
      · rw [List.cons_append, List.append_assoc]
        rfl
      · show Token.openParen :: (us ++ .closeParen :: rest) = .openParen :: ((us ++ _) ++ rest)
        rw [List.append_assoc]
        rfl
      · rw [List.map_cons, List.map_append, List.map_singleton, hp, hq]
        exact .paren hphrase
      · rw [terms_paren]
        exact hsuited
      · simp only [List.length_cons, List.length_append]
        omega
  · obtain ⟨q, placed, us, s', rest, rfl, hstep, h, rfl⟩ := scan_eq_ok ⟨_, rfl⟩ h
    obtain ⟨op, hq, rfl, rfl⟩ := stepOperator_eq_ok hstep
    obtain ⟨front, more, l, rest, rfl, hl, hsuited, rfl, hmore⟩ := completes_value h
    refine ⟨more, rest, ⟨p :: q :: front, [.term ⟨selector, op, l⟩], rfl, rfl, ?_,
      List.forall_mem_singleton.mpr hsuited⟩, ?_, hmore⟩
    · rw [List.map_cons, List.map_cons, hp, hq]
      exact .term selector op hl
    · simp only [List.length_cons, List.length_append]
      omega

/-- whatever the scanner accepts starts with an expression; the induction is on the number of
lexemes, since both the inside of parentheses and the right side of a connective are shorter -/
theorem begins_expression (h : scan stop ⟨depth, .term⟩ placed = .ok ts) :
    ∃ more rest, Begins .expression placed more ts rest ∧ Closing stop depth more rest := by
  obtain ⟨n, hn⟩ : ∃ n, placed.length = n := ⟨_, rfl⟩
  induction n using Nat.strongRecOn generalizing depth placed ts with
  | ind n ih =>
    subst hn
    obtain ⟨more, rest, ⟨front, us, rfl, rfl, hphrase, hsuited⟩, hlt, hafter⟩ :=
      begins_factor (fun more us hlt h => ih _ hlt h rfl) h
    rcases closing_or_connective hafter with hclosing | ⟨p, c, more, rest, rfl, hp, rfl, hright⟩
    · exact ⟨more, rest, ⟨front, us, rfl, rfl, .single hphrase, hsuited⟩, hclosing⟩
    · obtain ⟨more', rest', ⟨front', us', rfl, rfl, hphrase', hsuited'⟩, hclosing⟩ :=
        ih _ (Nat.lt_of_succ_lt hlt) hright rfl
      refine ⟨more', rest', ⟨front ++ p :: front', us ++ .connective c :: us', ?_, ?_, ?_, ?_⟩,
        hclosing⟩
      · rw [List.append_assoc, List.cons_append]
      · rw [List.append_assoc, List.cons_append]
      · rw [List.map_append, List.map_cons, hp]
        exact .joined c hphrase hphrase'
      · rw [terms_joined]
        exact List.forall_mem_append.mpr ⟨hsuited, hsuited'⟩

theorem phrase_of_scan (h : scan stop ⟨0, .term⟩ placed = .ok ts) :
    Phrase .expression (placed.map Placed.lexeme) ts ∧ ∀ t ∈ terms ts, t.Suited := by
  obtain ⟨more, rest, ⟨front, us, rfl, rfl, hphrase, hsuited⟩, hclosing⟩ := begins_expression h
  cases hclosing with
  | last =>
    rw [List.append_nil, List.append_nil]
    exact ⟨hphrase, hsuited⟩

end

/-! ## the whole filter -/

theorem exists_kind_of_flat {l : Literal} (h : l.Flat) : ∃ k, l.kind? = some k := by
  cases h with
  | scalar h => exact exists_kind h
  | list hne hscalar _ =>
    obtain ⟨first, rest, rfl⟩ := List.exists_cons_of_ne_nil hne
    rw [Literal.kind?]
    exact exists_kind (hscalar first List.mem_cons_self)

theorem isQuantified_iff (s : Selector) : s.isQuantified = true ↔ s ≠ .star := by
  cases s <;> decide

theorem uniform_cons_eq_ok {first : Term} {rest : List Term}
    (h : uniform (first :: rest) = .ok ()) :
    (∀ t ∈ rest, t.selector.isQuantified = first.selector.isQuantified) ∧
      ∀ t ∈ rest, clash first.literal.kind? t.literal.kind? = none := by
  rw [uniform] at h
  split at h
  · cases h
  rename_i hselectors
  split at h
  · cases h
  rename_i hkinds
  rw [Bool.not_eq_true, List.any_eq_false] at hselectors
  exact ⟨fun t ht => by simpa using hselectors t ht, List.findSome?_eq_none_iff.mp hkinds⟩

/-- each term is compared with the first one only, and that is enough -/
theorem consistent_of_uniform {ts : List Term} (h : uniform ts = .ok ())
    (hsuited : ∀ t ∈ ts, t.Suited) : Consistent ts := by
  have hitems : ∀ t ∈ ts, ∀ items, t.literal = .list items →
      ∀ i ∈ items, ∀ j ∈ items, i.kind? = j.kind? := by
    intro t ht items hl
    have hflat := (hsuited t ht).flat
    rw [hl] at hflat
    cases hflat with
    | scalar h => cases h
    | list _ _ hkind => exact hkind
  have hlist : ∀ t ∈ ts, t.literal.isList = true ↔ t.operator = .isIn :=
    fun t ht => (hsuited t ht).list_iff
  have hboolean : ∀ t ∈ ts, t.literal.kind? = some .boolean → t.operator = .eq :=
    fun t ht => (hsuited t ht).boolean
  cases ts with
  | nil => exact ⟨hlist, hboolean, hitems, .inl nofun, nofun⟩
  | cons first rest =>
    obtain ⟨hselectors, hclash⟩ := uniform_cons_eq_ok h
    have hselector : ∀ t ∈ first :: rest,
        t.selector.isQuantified = first.selector.isQuantified :=
      List.forall_mem_cons.mpr ⟨rfl, hselectors⟩
    have hkind : ∀ t ∈ first :: rest, first.literal.kind? = t.literal.kind? := by
      refine List.forall_mem_cons.mpr ⟨rfl, fun t ht => ?_⟩
      obtain ⟨k, hk⟩ := exists_kind_of_flat (hsuited first List.mem_cons_self).flat
      obtain ⟨k', hk'⟩ := exists_kind_of_flat (hsuited t (List.mem_cons_of_mem _ ht)).flat
      have hnone := hclash t ht
      rw [hk, hk'] at hnone ⊢
      rw [eq_of_clash hnone]
    refine ⟨hlist, hboolean, hitems, ?_, fun t ht u hu => (hkind t ht).symm.trans (hkind u hu)⟩
    by_cases hq : first.selector.isQuantified = true
    · exact .inr fun t ht => (isQuantified_iff _).mp ((hselector t ht).trans hq)
    · refine .inl fun t ht => by_contra fun hstar => hq ?_
      rw [← hselector t ht]
      exact (isQuantified_iff _).mpr hstar

theorem phrase_of_tokens {start : Nat} {body : List Char} {ts : List Token}
    (h : tokens start body = .ok ts) :
    ∃ placed inner, lexemes start body = .ok placed ∧
      Phrase .expression (placed.map Placed.lexeme) inner ∧ Consistent (terms inner) ∧
      ts = .filterStart :: (inner ++ [.filterEnd]) := by
  unfold tokens at h
  split at h
  · cases h
  rename_i placed hplaced
  obtain ⟨inner, hscan, h⟩ := bind_eq_ok.mp h
  obtain ⟨u, huniform, rfl⟩ := map_eq_ok.mp h
  obtain ⟨hphrase, hsuited⟩ := phrase_of_scan hscan
  exact ⟨placed, inner, hplaced, hphrase, consistent_of_uniform huniform hsuited, rfl⟩

/-- the tokens of a filter stand for one -/
theorem group_of_tokens {start : Nat} {body : List Char} {ts : List Token}
    (h : tokens start body = .ok ts) : ∃ f, Group ts (some f) := by
  obtain ⟨placed, inner, -, hphrase, -, rfl⟩ := phrase_of_tokens h
  obtain ⟨-, f, hf, -⟩ := hphrase.derives
  exact ⟨f, .some hf⟩

/-- a text between brackets is a filter when it is made of lexemes only, these stand for an
expression by the grammar, and the terms of the expression keep the rules; its tokens are those
of the expression between the tokens of the brackets -/
theorem tokens_eq_ok_iff (start : Nat) (body : List Char) (ts : List Token) :
    tokens start body = .ok ts ↔
      ∃ placed inner, lexemes start body = .ok placed ∧
        Phrase .expression (placed.map Placed.lexeme) inner ∧ Consistent (terms inner) ∧
        ts = .filterStart :: (inner ++ [.filterEnd]) := by
  constructor
  · exact phrase_of_tokens
  · rintro ⟨placed, inner, hplaced, hphrase, hterms, rfl⟩
    obtain ⟨hlexemes, f, hf, hleaves⟩ := hphrase.derives
    exact (hphrase.regular hterms hleaves).tokens_lexemes hf hplaced hlexemes.symm

end Filter

end NestedQuery
