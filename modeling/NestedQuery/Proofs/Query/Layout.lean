import NestedQuery.Proofs.Query.Filter.Scanning
import NestedQuery.Query.Line

/-!
# Layouts of a query

A query is laid out on lines, with a member or a closing brace on each of them.  White space may
stand around and inside of lines, and blank lines anywhere.

* `Line.Written`           the texts of a line without white space around it;
* `Line.Shown`             a line with white space around it;
* `Member.Laid`            the lines of members, with blocks inside of each other;
* `Query.Written`          the texts of a query;
* `Query.exists_written`   a query can be written if its names can.
-/

namespace NestedQuery

open Text (IsName Blanks Core)

/-! ## lines -/

/-- the texts of a line without white space around it -/
inductive Line.Written : Line → List Char → Prop
  | rootOpen {model : String} {gap gap' : List Char} (hmodel : IsName model) (hne : gap ≠ [])
      (hgap : Blanks gap) (hgap' : Blanks gap') :
      Written (.rootOpen model) ("query".toList ++ (gap ++ (model.toList ++ (gap' ++ ['{']))))
  | relationshipOpen {name : String} {gap : List Char} (hname : IsName name) (hgap : Blanks gap) :
      Written (.relationshipOpen name none) (name.toList ++ (gap ++ ['{']))
  | castOpen {name cast : String} {gap₁ gap₂ gap₃ gap₄ : List Char} (hname : IsName name)
      (hcast : IsName cast) (h₁ : Blanks gap₁) (h₂ : Blanks gap₂) (h₃ : Blanks gap₃)
      (h₄ : Blanks gap₄) :
      Written (.relationshipOpen name (some cast)) (name.toList ++
        (gap₁ ++ '(' :: (gap₂ ++ (cast.toList ++ (gap₃ ++ ')' :: (gap₄ ++ ['{']))))))
  | close : Written .close ['}']
  | plain {name : String} (hname : IsName name) : Written (.attribute name none) name.toList
  | filtered {name : String} {gap : List Char} (text : List Char) (hname : IsName name)
      (hgap : Blanks gap) :
      Written (.attribute name (some (name.toList.length + gap.length + 1, text)))
        (name.toList ++ (gap ++ '[' :: (text ++ [']'])))

/-- a line with white space around it -/
def Line.Shown (l : Line) (line : List Char) : Prop :=
  ∃ before text after, Blanks before ∧ l.Written text ∧ Blanks after ∧
    line = before ++ (text ++ after)

/-! ## trees -/

/-- the lines of the members of a block, with blank ones among them.  The class of a block is
written unless it is the target of the relationship, and then it may be. -/
inductive Member.Laid : List Member → List (List Char) → Prop
  | nil : Laid [] []
  | blank {members : List Member} {line : List Char} {lines : List (List Char)}
      (hline : Blanks line) (h : Laid members lines) : Laid members (line :: lines)
  | plain {a : Attribute} {rest : List Member} {line : List Char} {lines : List (List Char)}
      (hline : (Line.attribute a.name none).Shown line) (h : Laid rest lines) :
      Laid (.attribute a none :: rest) (line :: lines)
  | filtered {a : Attribute} {f : Filter} {start : Nat} {text : List Char} {rest : List Member}
      {line : List Char} {lines : List (List Char)} (htext : f.Written text)
      (hline : (Line.attribute a.name (some (start, text))).Shown line) (h : Laid rest lines) :
      Laid (.attribute a (some f) :: rest) (line :: lines)
  | block {r : Relationship} {model : String} {cast : Option String}
      {children rest : List Member} {opening closing : List Char}
      {inner lines : List (List Char)}
      (hcast : cast = some model ∨ cast = none ∧ model = r.target)
      (hopening : (Line.relationshipOpen r.name cast).Shown opening)
      (hinner : Laid children inner) (hclosing : Line.close.Shown closing) (h : Laid rest lines) :
      Laid (.relationship r model children :: rest) (opening :: (inner ++ closing :: lines))

/-- the texts of a query, with blank lines around it -/
def Query.Written (q : Query) (text : String) : Prop :=
  ∃ (before after inner : List (List Char)) (opening closing : List Char),
    (∀ line ∈ before, Blanks line) ∧ (Line.rootOpen q.model).Shown opening ∧
    Member.Laid q.children inner ∧ Line.close.Shown closing ∧ (∀ line ∈ after, Blanks line) ∧
    Text.Joined (before ++ opening :: (inner ++ closing :: after)) text.toList

/-- the filters in a list of members keep the rules -/
inductive Member.Regular : List Member → Prop
  | nil : Regular []
  | plain {rest : List Member} (a : Attribute) (h : Regular rest) :
      Regular (.attribute a none :: rest)
  | filtered {f : Filter} {rest : List Member} (a : Attribute) (hf : f.Regular)
      (h : Regular rest) : Regular (.attribute a (some f) :: rest)
  | block {children rest : List Member} (r : Relationship) (model : String)
      (hchildren : Regular children) (h : Regular rest) :
      Regular (.relationship r model children :: rest)

/-! ## every query has a text -/

/-- the names in a list of members can be written; that of a block's model has to be, unless it is
the target of the relationship -/
inductive Member.Named : List Member → Prop
  | nil : Named []
  | plain {a : Attribute} {rest : List Member} (f : Option Filter) (hname : IsName a.name)
      (h : Named rest) : Named (.attribute a f :: rest)
  | block {r : Relationship} {model : String} {children rest : List Member}
      (hname : IsName r.name) (hmodel : model = r.target ∨ IsName model)
      (hchildren : Named children) (h : Named rest) :
      Named (.relationship r model children :: rest)

structure Query.Named (q : Query) : Prop where
  root : IsName q.model
  members : Member.Named q.children

theorem Lexeme.exists_written (x : Lexeme) : ∃ text, x.Written text := by
  cases x with
  | openParen => exact ⟨_, .openParen⟩
  | closeParen => exact ⟨_, .closeParen⟩
  | openBracket => exact ⟨_, .openBracket⟩
  | closeBracket => exact ⟨_, .closeBracket⟩
  | comma => exact ⟨_, .comma⟩
  | selector s => exact ⟨_, .selector s⟩
  | operator op => exact ⟨_, .operator op⟩
  | connective c => exact ⟨_, .connective c⟩
  | string s => exact ⟨_, .string s (.inl rfl)⟩
  | integer n => exact ⟨_, .integer n⟩
  | boolean b => exact ⟨_, .boolean b⟩

/-- a blank before each lexeme keeps words apart -/
theorem Lexeme.exists_spaced (xs : List Lexeme) : ∃ text, Spaced xs (' ' :: text) := by
  have hgap : Gap [' '] := List.forall_mem_singleton.mpr rfl
  induction xs with
  | nil => exact ⟨[], .nil hgap⟩
  | cons x xs ih =>
    obtain ⟨rest, hrest⟩ := ih
    obtain ⟨text, htext⟩ := x.exists_written
    exact ⟨_, .cons hgap htext hrest fun _ _ _ _ => ⟨' ', rfl, rfl⟩⟩

/-- tokens of a filter, with parentheses around every compound part of it -/
theorem Filter.exists_derives (f : Filter) : ∃ tokens, Derives .factor tokens f := by
  induction f with
  | term t => exact ⟨_, .term t⟩
  | joined c l r ihl ihr =>
    obtain ⟨ts, hl⟩ := ihl
    obtain ⟨us, hr⟩ := ihr
    exact ⟨_, .paren (.joined c hl (.single hr))⟩

theorem Filter.exists_written (f : Filter) : ∃ text, f.Written text := by
  obtain ⟨tokens, h⟩ := f.exists_derives
  obtain ⟨text, htext⟩ := Lexeme.exists_spaced (tokens.flatMap Token.lexemes)
  exact ⟨_, tokens, .single h, htext⟩

theorem Line.Written.shown {l : Line} {text : List Char} (h : l.Written text) : l.Shown text :=
  ⟨[], text, [], Text.blanks_nil, h, Text.blanks_nil, (List.append_nil text).symm⟩

theorem Member.Named.exists_laid {members : List Member} (h : Named members) :
    ∃ lines, Laid members lines := by
  have hgap := Text.blanks_nil
  induction h with
  | nil => exact ⟨[], .nil⟩
  | plain f hname _ ih =>
    obtain ⟨lines, hlines⟩ := ih
    cases f with
    | none => exact ⟨_, .plain (Line.Written.plain hname).shown hlines⟩
    | some f =>
      obtain ⟨text, htext⟩ := f.exists_written
      exact ⟨_, .filtered htext (Line.Written.filtered text hname hgap).shown hlines⟩
  | block hname hmodel _ _ ihc ih =>
    obtain ⟨inner, hinner⟩ := ihc
    obtain ⟨lines, hlines⟩ := ih
    rcases hmodel with htarget | hmodel
    · exact ⟨_, .block (.inr ⟨rfl, htarget⟩) (Line.Written.relationshipOpen hname hgap).shown hinner
        Line.Written.close.shown hlines⟩
    · exact ⟨_, .block (.inl rfl) (Line.Written.castOpen hname hmodel hgap hgap hgap hgap).shown
        hinner Line.Written.close.shown hlines⟩

theorem Text.exists_joined {lines : List (List Char)} (h : lines ≠ []) :
    ∃ text, Joined lines text := by
  induction lines with
  | nil => exact absurd rfl h
  | cons line rest ih =>
    cases rest with
    | nil => exact ⟨line, .last line⟩
    | cons next rest =>
      obtain ⟨text, htext⟩ := ih (List.cons_ne_nil _ _)
      exact ⟨_, .lf line htext⟩

/-- a query can be written if its names can -/
theorem Query.exists_written {q : Query} (h : q.Named) : ∃ text, q.Written text := by
  obtain ⟨inner, hinner⟩ := h.members.exists_laid
  have hgap : Blanks [' '] := Text.blanks_singleton rfl (by decide)
  have hroot := Line.Written.rootOpen h.root (List.cons_ne_nil _ _) hgap Text.blanks_nil
  obtain ⟨opening, hopening⟩ : ∃ opening, (Line.rootOpen q.model).Shown opening :=
    ⟨_, hroot.shown⟩
  obtain ⟨text, htext⟩ := Text.exists_joined (List.cons_ne_nil opening (inner ++ [['}']]))
  rw [← String.toList_ofList (l := text)] at htext
  exact ⟨String.ofList text, [], [], inner, opening, ['}'], nofun, hopening, hinner,
    Line.Written.close.shown, nofun, htext⟩

end NestedQuery
