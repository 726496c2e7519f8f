import NestedQuery.Proofs.Outcome
import NestedQuery.Proofs.Query.Filter.Landmarks
import NestedQuery.Query.Filter.Tokens

/-!
# Where the flaws of a filter are

A flaw has the column of a lexeme, of a piece of text that is none, or of the end of the filter.

* `Flaw.Concerns`, `Flaw.atEnd`    the lexemes that a flaw can be about, and whether it can be
                                   about the end;
* `Flaw.Marks`                     a flaw is about what stands at the start of a text;
* `Fault.PointsTo`                 the column of a fault is that of a lexeme or of the end;
* `failsOnly_scan`                 all faults of the scanner have such columns;
* `tokens_eq_malformed`            the column of a flaw is where it marks the text.

The column of an opening bracket is part of the scanner's state.  What carries the induction is
`State.OpenedBy`: some bracket was read there.
-/

namespace NestedQuery.Filter

open Lexeme (Arrives Passed Reads Strays)

/-! ## what a flaw is about -/

/-- the lexemes that a flaw can be about -/
def Flaw.Concerns : Flaw → Lexeme → Prop
  | noSelector, x => x ≠ .openParen ∧ ∀ s, x ≠ .selector s
  | noOperator, x => ∀ op, x ≠ .operator op
  | noValue, x => x ≠ .openBracket ∧ x.literal? = none
  | noElement, x => x.literal? = none
  | noSeparator, x => x ≠ .comma ∧ x ≠ .closeBracket
  | emptyList, x => x = .openBracket
  | unclosedList, x => x = .openBracket
  | noConnective, x => x ≠ .closeParen ∧ ∀ c, x ≠ .connective c
  | unopenedParen, x => x = .closeParen
  | stray _, _ | missingValue, _ | missingTerm, _ | unclosedParen, _ => False

/-- a filter that ends too early can have the flaw -/
def Flaw.atEnd : Flaw → Bool
  | noOperator | noSeparator | missingValue | missingTerm | unclosedParen => true
  | _ => false

/-- a flaw is about what stands at the start of a text -/
inductive Flaw.Marks : Flaw → List Char → Prop
  | stray {text piece : List Char} (h : Strays text piece) :
      Marks (.stray (String.ofList piece)) text
  | lexeme {flaw : Flaw} {text rest : List Char} {x : Lexeme} (hx : Reads text rest x)
      (hflaw : flaw.Concerns x) : Marks flaw text
  | stop {flaw : Flaw} (hflaw : flaw.atEnd = true) : Marks flaw []

/-- a piece of text that is no lexeme is shown as it stands there -/
theorem Flaw.Marks.isPrefix {piece : String} {text : List Char}
    (h : (Flaw.stray piece).Marks text) :
    piece ≠ "" ∧ piece.toList <+: text := by
  cases h with
  | @stray _ piece h =>
    rw [String.toList_ofList]
    refine ⟨fun hempty => h.isPrefix.1 ?_, h.isPrefix.2⟩
    rw [← String.toList_ofList (l := piece), hempty, String.toList_empty]
  | lexeme _ hflaw => exact hflaw.elim
  | stop hflaw => cases hflaw

/-! ## faults without a column -/

/-- parts that do not suit each other -/
def Fault.IsMismatch : Fault → Prop
  | malformed _ _ => False
  | _ => True

theorem failsOnly_completed (selector : Selector) (op : Operator) (literal : Literal) :
    FailsOnly Fault.IsMismatch (completed selector op literal) := by
  unfold completed
  split
  · exact failsOnly_error trivial
  · split
    · exact failsOnly_error trivial
    · exact failsOnly_ok _

theorem failsOnly_extended (items : List Literal) (item : Literal) :
    FailsOnly Fault.IsMismatch (extended items item) := by
  unfold extended
  split
  · exact failsOnly_error trivial
  · exact failsOnly_ok _

theorem failsOnly_uniform (ts : List Term) : FailsOnly Fault.IsMismatch (uniform ts) := by
  cases ts with
  | nil => exact failsOnly_ok _
  | cons first rest =>
    rw [uniform]
    split
    · exact failsOnly_error trivial
    · split
      · exact failsOnly_error trivial
      · exact failsOnly_ok _

/-! ## one step -/

/-- the column where the list was opened whose items are read -/
def Expecting.opened? : Expecting → Option Nat
  | element _ _ opened _ | separator _ _ opened _ => some opened
  | _ => none

/-- the list whose items are read was opened by one of some lexemes -/
def State.OpenedBy (placed : List Placed) (s : State) : Prop :=
  ∀ opened ∈ s.expecting.opened?, ⟨opened, .openBracket⟩ ∈ placed

/-- the column of a fault is that of one of some lexemes, or that of the end -/
def Fault.PointsTo (placed : List Placed) (stop : Nat) : Fault → Prop
  | malformed column flaw =>
    (column = stop ∧ flaw.atEnd = true) ∨ ∃ x, ⟨column, x⟩ ∈ placed ∧ flaw.Concerns x
  | _ => True

theorem Fault.IsMismatch.pointsTo {fault : Fault} (h : fault.IsMismatch) (placed : List Placed)
    (stop : Nat) : fault.PointsTo placed stop := by
  cases fault with
  | malformed => cases h
  | unsuitedLiteral | orderedBoolean | mixedList | mixedSelectors | mixedLiterals => trivial

/-- a step among some lexemes: what it fails with points to one of them, and what it leads to was
opened by one of them -/
def StepsAmong (placed : List Placed) (stop : Nat) : Step → Prop
  | .error fault => fault.PointsTo placed stop
  | .ok (_, s) => s.OpenedBy placed

section
variable {placed : List Placed} {stop : Nat} {s : State} {p : Placed} {selector : Selector}
  {op : Operator}

theorem pointsTo_of_concerns (hp : p ∈ placed) {flaw : Flaw} (h : flaw.Concerns p.lexeme) :
    (Fault.malformed p.column flaw).PointsTo placed stop :=
  .inr ⟨p.lexeme, hp, h⟩

theorem openedBy_of_none (h : s.expecting.opened? = none) : s.OpenedBy placed := by
  intro opened hopened
  rw [h] at hopened
  cases hopened

theorem openedBy_of_some {opened : Nat} (h : s.expecting.opened? = some opened)
    (hopened : ⟨opened, .openBracket⟩ ∈ placed) : s.OpenedBy placed := by
  intro column hcolumn
  rw [h] at hcolumn
  cases Option.mem_some.mp hcolumn
  exact hopened

theorem stepsAmong_finishTerm (literal : Literal) :
    StepsAmong placed stop (finishTerm s selector op literal) := by
  unfold finishTerm
  split
  · rename_i fault h
    exact (failsOnly_completed _ _ _ fault h).pointsTo placed stop
  · exact openedBy_of_none rfl

theorem stepsAmong_stepTerm (hp : p ∈ placed) : StepsAmong placed stop (stepTerm s p) := by
  unfold stepTerm
  split
  · exact openedBy_of_none rfl
  · exact openedBy_of_none rfl
  · rename_i hparen hselector
    exact pointsTo_of_concerns hp ⟨hparen, hselector⟩

theorem stepsAmong_stepOperator (hp : p ∈ placed) :
    StepsAmong placed stop (stepOperator s selector p) := by
  unfold stepOperator
  split
  · exact openedBy_of_none rfl
  · rename_i hop
    exact pointsTo_of_concerns hp hop

theorem stepsAmong_stepValue (hp : p ∈ placed) :
    StepsAmong placed stop (stepValue s selector op p) := by
  unfold stepValue
  split
  · rename_i hbracket
    refine openedBy_of_some rfl ?_
    rw [← hbracket]
    exact hp
  · rename_i hbracket
    split
    · exact stepsAmong_finishTerm _
    · rename_i hliteral
      exact pointsTo_of_concerns hp ⟨hbracket, hliteral⟩

theorem stepsAmong_stepElement {opened : Nat} {items : List Literal} (hp : p ∈ placed)
    (hopened : ⟨opened, .openBracket⟩ ∈ placed) :
    StepsAmong placed stop (stepElement s selector op opened items p) := by
  unfold stepElement
  split
  · split
    · rename_i fault h
      exact (failsOnly_extended _ _ fault h).pointsTo placed stop
    · exact openedBy_of_some rfl hopened
  · rename_i hliteral
    split
    · exact .inr ⟨_, hopened, rfl⟩
    · exact pointsTo_of_concerns hp hliteral

theorem stepsAmong_stepSeparator {opened : Nat} {items : List Literal} (hp : p ∈ placed)
    (hopened : ⟨opened, .openBracket⟩ ∈ placed) :
    StepsAmong placed stop (stepSeparator s selector op opened items p) := by
  unfold stepSeparator
  split
  · exact openedBy_of_some rfl hopened
  · exact stepsAmong_finishTerm _
  · rename_i hcomma hbracket
    exact pointsTo_of_concerns hp ⟨hcomma, hbracket⟩

theorem stepsAmong_stepConnective (hp : p ∈ placed) :
    StepsAmong placed stop (stepConnective s p) := by
  unfold stepConnective
  split
  · rename_i hparen
    split
    · exact pointsTo_of_concerns hp hparen
    · exact openedBy_of_none rfl
  · exact openedBy_of_none rfl
  · rename_i hparen hconnective
    exact pointsTo_of_concerns hp ⟨hparen, hconnective⟩

theorem stepsAmong_step (hs : s.OpenedBy placed) (hp : p ∈ placed) :
    StepsAmong placed stop (step s p) := by
  obtain ⟨depth, expecting⟩ := s
  cases expecting with
  | term => exact stepsAmong_stepTerm hp
  | operator selector => exact stepsAmong_stepOperator hp
  | value selector op => exact stepsAmong_stepValue hp
  | element selector op opened items => exact stepsAmong_stepElement hp (hs opened rfl)
  | separator selector op opened items => exact stepsAmong_stepSeparator hp (hs opened rfl)
  | connective => exact stepsAmong_stepConnective hp

/-! ## all steps -/

theorem failsOnly_finish (hs : s.OpenedBy placed) :
    FailsOnly (Fault.PointsTo placed stop) (finish stop s) := by
  obtain ⟨depth, expecting⟩ := s
  cases expecting with
  | term | operator | value | separator => exact failsOnly_error (.inl ⟨rfl, rfl⟩)
  | element selector op opened items => exact failsOnly_error (.inr ⟨_, hs opened rfl, rfl⟩)
  | connective =>
    show FailsOnly _ (if depth = 0 then _ else _)
    split
    · exact failsOnly_ok _
    · exact failsOnly_error (.inl ⟨rfl, rfl⟩)

/-- the induction is on the lexemes that are left, which are some of those that faults point to -/
theorem failsOnly_scan {left : List Placed} (hs : s.OpenedBy placed)
    (hleft : ∀ p ∈ left, p ∈ placed) :
    FailsOnly (Fault.PointsTo placed stop) (scan stop s left) := by
  induction left generalizing s with
  | nil => exact (failsOnly_finish hs).map _
  | cons p left ih =>
    obtain ⟨hp, hleft⟩ := List.forall_mem_cons.mp hleft
    have hstep : StepsAmong placed stop (step s p) := stepsAmong_step hs hp
    rw [scan_cons]
    cases h : step s p with
    | error fault =>
      rw [h] at hstep
      exact failsOnly_error hstep
    | ok r =>
      rw [h] at hstep
      rw [bind_ok]
      exact (ih hstep hleft).map _

end

/-- a flaw is where it marks the text -/
theorem tokens_eq_malformed {start column : Nat} {body : List Char} {flaw : Flaw}
    (h : tokens start body = .error (.malformed column flaw)) :
    ∃ rest, Arrives start body column rest ∧ flaw.Marks rest := by
  have harrive := lexemes_arrive start body
  unfold tokens at h
  split at h
  · rename_i k piece hstray
    rw [hstray] at harrive
    cases h
    obtain ⟨rest, hrest, hstrays⟩ := harrive
    exact ⟨rest, hrest, .stray hstrays⟩
  · rename_i placed hplaced
    rw [hplaced] at harrive
    obtain ⟨hend, harrive⟩ := harrive
    have hscan : FailsOnly (Fault.PointsTo placed (start + body.length))
        (scan (start + body.length) ⟨0, .term⟩ placed) :=
      failsOnly_scan (openedBy_of_none rfl) fun _ hp => hp
    have huniform (ts : List Term) :
        FailsOnly (Fault.PointsTo placed (start + body.length)) (uniform ts) :=
      fun fault h => (failsOnly_uniform ts fault h).pointsTo _ _
    have hpoints := hscan.bind (fun scanned _ => (huniform (terms scanned)).map _) _ h
    rcases hpoints with ⟨rfl, hflaw⟩ | ⟨x, hx, hflaw⟩
    · exact ⟨[], hend, .stop hflaw⟩
    · obtain ⟨rest, more, hrest, hreads⟩ := harrive _ hx
      exact ⟨rest, hrest, .lexeme hreads hflaw⟩

end NestedQuery.Filter
