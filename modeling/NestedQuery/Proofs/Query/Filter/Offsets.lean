import NestedQuery.Proofs.Query.Filter.Flaws
import NestedQuery.Proofs.Text.Offsets

/-!
# Filters read by bytes

A program that counts bytes along the way, and not characters, finds the same tokens and the same
flaws, at the offsets of their columns.

* `lexemesInBytes`              the lexemes of a text with their offsets;
* `lexemesInBytes_byteLength`   these are the offsets of the columns;
* `Filter.step_relocated`, `Filter.scan_relocated`   the scanner does not care for the units;
* `Filter.tokensInBytes`        the tokens of a filter, and the offsets of its flaws;
* `Filter.tokensInBytes_byteLength`   these are the offsets of the columns too.
-/

namespace NestedQuery

/-! ## lexemes -/

open Text (byteLength byteLength_nil byteLength_cons byteLength_append offsetOf offsetOf_length)

/-- the lexemes of a text, or the first piece of it that is none, with the offsets of their first
characters; the text starts at `offset` -/
def lexemesInBytes (offset : Nat) : List Char → Except (Nat × List Char) (List Placed)
  | [] => .ok []
  | c :: cs =>
    if isGap c then lexemesInBytes (offset + c.utf8Size) cs
    else
      match Lexeme.read c cs with
      | .error piece => .error (offset, piece)
      | .ok (lexeme, ⟨rest, _h⟩) =>
        match lexemesInBytes (offset + (byteLength (c :: cs) - byteLength rest)) rest with
        | .error stray => .error stray
        | .ok placed => .ok (⟨offset, lexeme⟩ :: placed)
termination_by cs => cs.length
decreasing_by
  · simp
  · exact Nat.lt_succ_of_le _h

/-- a lexeme whose column is given in other units -/
def Placed.relocated (f : Nat → Nat) (p : Placed) : Placed := ⟨f p.column, p.lexeme⟩

/-- lexemes, or a piece of text that is none, in other units -/
def relocatedLexemes (f : Nat → Nat) :
    Except (Nat × List Char) (List Placed) → Except (Nat × List Char) (List Placed)
  | .error (column, piece) => .error (f column, piece)
  | .ok placed => .ok (placed.map (Placed.relocated f))

/-- what is left after a lexeme, with the columns and the bytes before it -/
theorem lexemesInBytes_after {before cs : List Char} {c : Char} {x : Lexeme} {r : Text.Rest cs}
    (hread : Lexeme.read c cs = .ok (x, r))
    (ih : ∀ before' : List Char, before'.length = before.length + 1 + (cs.length - r.1.length) →
      lexemesInBytes (byteLength before') r.1 =
        relocatedLexemes (offsetOf (before' ++ r.1))
          (lexemes (before.length + 1 + (cs.length - r.1.length)) r.1)) :
    lexemesInBytes (byteLength before + (byteLength (c :: cs) - byteLength r.1)) r.1 =
      relocatedLexemes (offsetOf (before ++ c :: cs))
        (lexemes (before.length + 1 + (cs.length - r.1.length)) r.1) := by
  obtain ⟨word, hword⟩ := Lexeme.exists_word hread
  have hlength : (before ++ c :: word).length = before.length + 1 + (cs.length - r.1.length) := by
    have hcs := congrArg List.length hword
    simp only [List.length_append, List.length_cons] at hcs ⊢
    omega
  have hbytes : byteLength (before ++ c :: word) =
      byteLength before + (byteLength (c :: cs) - byteLength r.1) := by
    have hcs := congrArg byteLength hword
    simp only [byteLength_append, byteLength_cons] at hcs ⊢
    omega
  have htext : before ++ c :: cs = before ++ c :: word ++ r.1 := by
    rw [List.append_assoc, List.cons_append, ← hword]
  rw [htext, ← hbytes]
  exact ih _ hlength

/-- offsets count the bytes before the columns -/
theorem lexemesInBytes_byteLength (before text : List Char) :
    lexemesInBytes (byteLength before) text =
      relocatedLexemes (offsetOf (before ++ text)) (lexemes before.length text) := by
  generalize hstart : before.length = start
  -- `before` takes up what is read, so that the whole text stays the same
  fun_induction lexemes start text generalizing before with
  | case1 start =>
    rw [lexemesInBytes]
    rfl
  | case2 start c cs hc ih =>
    have hbytes : byteLength (before ++ [c]) = byteLength before + c.utf8Size := by
      rw [byteLength_append, byteLength_cons, byteLength_nil, Nat.add_zero]
    rw [lexemesInBytes, if_pos hc, ← hbytes, List.append_cons before c cs]
    exact ih (before ++ [c]) (by rw [List.length_append, hstart, List.length_singleton])
  | case3 start c cs hc piece hread =>
    rw [lexemesInBytes, if_neg hc, hread, ← hstart]
    exact congrArg (fun offset => Except.error (offset, piece))
      (offsetOf_length before (c :: cs)).symm
  | case4 start c cs hc x rest hle hread stray hstray ih =>
    subst hstart
    rw [lexemesInBytes, if_neg hc, hread]
    dsimp only
    rw [lexemesInBytes_after hread ih, hstray]
    rfl
  | case5 start c cs hc x rest hle hread placed hplaced ih =>
    subst hstart
    rw [lexemesInBytes, if_neg hc, hread]
    dsimp only
    rw [lexemesInBytes_after hread ih, hplaced]
    show Except.ok (_ :: _) = Except.ok (_ :: _)
    rw [Placed.relocated, offsetOf_length]

namespace Filter

/-! ## the scanner -/

/-- where the scanner is, with the column of an opening bracket in other units -/
def Expecting.relocated (f : Nat → Nat) : Expecting → Expecting
  | element selector op opened items => .element selector op (f opened) items
  | separator selector op opened items => .separator selector op (f opened) items
  | expecting => expecting

def State.relocated (f : Nat → Nat) (s : State) : State := ⟨s.depth, s.expecting.relocated f⟩

def Fault.relocated (f : Nat → Nat) : Fault → Fault
  | malformed column flaw => .malformed (f column) flaw
  | fault => fault

theorem Fault.IsMismatch.relocated_eq {fault : Fault} (h : fault.IsMismatch) (f : Nat → Nat) :
    fault.relocated f = fault := by
  cases fault with
  | malformed => cases h
  | unsuitedLiteral | orderedBoolean | mixedList | mixedSelectors | mixedLiterals => rfl

def Step.relocated (f : Nat → Nat) : Step → Step
  | .error fault => .error (fault.relocated f)
  | .ok (ts, s) => .ok (ts, s.relocated f)

section
variable (f : Nat → Nat) (s : State) (p : Placed) (selector : Selector) (op : Operator)

theorem finishTerm_relocated (literal : Literal) :
    finishTerm (s.relocated f) selector op literal =
      Step.relocated f (finishTerm s selector op literal) := by
  unfold finishTerm
  cases h : completed selector op literal with
  | error fault =>
    exact congrArg Except.error ((failsOnly_completed _ _ _ fault h).relocated_eq f).symm
  | ok t => rfl

theorem stepTerm_relocated :
    stepTerm (s.relocated f) (p.relocated f) = Step.relocated f (stepTerm s p) := by
  obtain ⟨column, x⟩ := p
  cases x <;> rfl

theorem stepOperator_relocated :
    stepOperator (s.relocated f) selector (p.relocated f) =
      Step.relocated f (stepOperator s selector p) := by
  obtain ⟨column, x⟩ := p
  cases x <;> rfl

theorem stepValue_relocated :
    stepValue (s.relocated f) selector op (p.relocated f) =
      Step.relocated f (stepValue s selector op p) := by
  obtain ⟨column, x⟩ := p
  cases x with
  | string | integer | boolean => exact finishTerm_relocated f s selector op _
  | openParen | closeParen | openBracket | closeBracket | comma | selector | operator
    | connective => rfl

theorem stepElement_relocated (opened : Nat) (items : List Literal) :
    stepElement (s.relocated f) selector op (f opened) items (p.relocated f) =
      Step.relocated f (stepElement s selector op opened items p) := by
  obtain ⟨column, x⟩ := p
  unfold stepElement Placed.relocated
  dsimp only
  cases x.literal? with
  | none =>
    dsimp only
    split <;> rfl
  | some item =>
    dsimp only
    cases h : extended items item with
    | error fault =>
      exact congrArg Except.error ((failsOnly_extended _ _ fault h).relocated_eq f).symm
    | ok items => rfl

theorem stepSeparator_relocated (opened : Nat) (items : List Literal) :
    stepSeparator (s.relocated f) selector op (f opened) items (p.relocated f) =
      Step.relocated f (stepSeparator s selector op opened items p) := by
  obtain ⟨column, x⟩ := p
  cases x with
  | closeBracket => exact finishTerm_relocated f s selector op _
  | openParen | closeParen | openBracket | comma | selector | operator | connective | string
    | integer | boolean => rfl

theorem stepConnective_relocated :
    stepConnective (s.relocated f) (p.relocated f) = Step.relocated f (stepConnective s p) := by
  obtain ⟨column, x⟩ := p
  obtain ⟨depth, expecting⟩ := s
  cases x <;> cases depth <;> rfl

theorem step_relocated :
    step (s.relocated f) (p.relocated f) = Step.relocated f (step s p) := by
  obtain ⟨depth, expecting⟩ := s
  cases expecting with
  | term => exact stepTerm_relocated f _ p
  | operator selector => exact stepOperator_relocated f _ p selector
  | value selector op => exact stepValue_relocated f _ p selector op
  | element selector op opened items => exact stepElement_relocated f _ p selector op opened items
  | separator selector op opened items =>
    exact stepSeparator_relocated f _ p selector op opened items
  | connective => exact stepConnective_relocated f _ p

theorem finish_relocated (stop : Nat) :
    finish (f stop) (s.relocated f) = (finish stop s).mapError (Fault.relocated f) := by
  obtain ⟨depth, expecting⟩ := s
  cases expecting with
  | term | operator | value | element | separator => rfl
  | connective => cases depth <;> rfl

/-- the scanner only hands columns on -/
theorem scan_relocated (stop : Nat) (placed : List Placed) :
    scan (f stop) (s.relocated f) (placed.map (Placed.relocated f)) =
      (scan stop s placed).mapError (Fault.relocated f) := by
  induction placed generalizing s with
  | nil =>
    rw [List.map_nil, scan_nil, scan_nil, finish_relocated]
    cases finish stop s <;> rfl
  | cons p placed ih =>
    rw [List.map_cons, scan_cons, scan_cons, step_relocated]
    cases step s p with
    | error fault => rfl
    | ok r =>
      show (scan (f stop) (r.2.relocated f) _).map _ = _
      rw [ih, bind_ok]
      cases scan stop r.2 placed <;> rfl

end

/-! ## the whole filter -/

/-- the tokens of the text between the brackets, which starts at an offset, with the offsets of
faults -/
def tokensInBytes (start : Nat) (body : List Char) : Except Fault (List Token) :=
  match lexemesInBytes start body with
  | .error (offset, piece) => .error (.malformed offset (.stray (String.ofList piece)))
  | .ok placed =>
    (scan (start + Text.byteLength body) ⟨0, .term⟩ placed).bind fun scanned =>
      (uniform (terms scanned)).map fun _ => .filterStart :: scanned ++ [.filterEnd]

/-- offsets count the bytes before the columns of faults -/
theorem tokensInBytes_byteLength (before body : List Char) :
    tokensInBytes (Text.byteLength before) body =
      (tokens before.length body).mapError (Fault.relocated (Text.offsetOf (before ++ body))) := by
  have hstop : Text.byteLength before + Text.byteLength body =
      Text.offsetOf (before ++ body) (before.length + body.length) := by
    rw [Text.offsetOf, ← List.length_append, List.take_length, Text.byteLength_append]
  rw [tokensInBytes, tokens, lexemesInBytes_byteLength, hstop]
  generalize Text.offsetOf (before ++ body) = f
  cases lexemes before.length body with
  | error stray => rfl
  | ok placed =>
    show (scan _ (State.relocated f ⟨0, .term⟩) (placed.map (Placed.relocated f))).bind _ = _
    rw [scan_relocated]
    dsimp only
    cases scan (before.length + body.length) ⟨0, .term⟩ placed with
    | error fault => rfl
    | ok scanned =>
      show (uniform (terms scanned)).map _ = ((uniform (terms scanned)).map _).mapError _
      cases h : uniform (terms scanned) with
      | error fault =>
        exact congrArg Except.error ((failsOnly_uniform _ fault h).relocated_eq _).symm
      | ok => rfl

end Filter

end NestedQuery
