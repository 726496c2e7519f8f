import NestedQuery.Proofs.Query.Filter.Lexing

/-!
# Where lexemes stand

The columns of lexemes are those of their first characters, and so is the column of a piece of text
that is no lexeme.

* `Lexeme.Strays`              a piece of text that is no lexeme stands at the start of a text;
* `Lexeme.Passed`              gaps and lexemes that are read before some text;
* `Lexeme.Arrives`             what is left of a text at a column, where a lexeme may start;
* `lexemes_arrive`             the columns of lexemes are such columns.
-/

namespace NestedQuery

namespace Lexeme

/-! ## parts of a text -/

/-- what is read of the text `c :: cs` is its start: a lexeme leaves the end of the text, and a
piece that is no lexeme is the start itself -/
def Cuts (c : Char) (cs : List Char) : Reading cs → Prop
  | .ok (_, r) => r.1 <:+ cs
  | .error piece => piece ≠ [] ∧ piece <+: c :: cs

theorem cuts_piece (c : Char) {piece cs : List Char} (h : piece <+: cs) :
    Cuts c cs (.error (c :: piece)) :=
  ⟨List.cons_ne_nil _ _, (List.prefix_cons_inj c).mpr h⟩

theorem cuts_readWord (c : Char) (cs : List Char) : Cuts c cs (readWord c cs) := by
  unfold readWord
  dsimp only
  split
  · exact List.dropWhile_suffix _
  · exact cuts_piece c <| List.takeWhile_prefix _

theorem cuts_readInteger (c : Char) (cs : List Char) : Cuts c cs (readInteger c cs) := by
  unfold readInteger
  dsimp only
  split
  · exact List.dropWhile_suffix _
  · exact cuts_piece c <| List.takeWhile_prefix _

theorem stringBody_suffix {quote : Char} {cs body : List Char} {r : Text.Rest cs}
    (h : stringBody quote cs = some (body, r)) : r.1 <:+ cs := by
  fun_induction stringBody quote cs generalizing body with
  | case1 => cases h
  | case2 rest =>
    cases h
    exact List.suffix_cons quote rest
  | case3 => cases h
  | case4 hne d rest' ih =>
    obtain ⟨⟨body', r'⟩, hbody, hr⟩ := Option.map_eq_some_iff.mp h
    cases hr
    exact ((ih hbody).trans (List.suffix_cons _ _)).trans (List.suffix_cons _ _)
  | case5 c rest _ _ ih =>
    obtain ⟨⟨body', r'⟩, hbody, hr⟩ := Option.map_eq_some_iff.mp h
    cases hr
    exact (ih hbody).trans (List.suffix_cons _ _)

theorem escapedText_isPrefix (cs : List Char) : escapedText cs <+: cs := by
  fun_induction escapedText cs with
  | case1 => exact List.prefix_refl _
  | case2 => exact List.nil_prefix
  | case3 d rest ih => exact (List.prefix_cons_inj _).mpr ((List.prefix_cons_inj _).mpr ih)
  | case4 c rest _ _ ih => exact (List.prefix_cons_inj _).mpr ih

theorem cuts_readString (quote : Char) (cs : List Char) : Cuts quote cs (readString quote cs) := by
  unfold readString
  split
  · rename_i h
    exact stringBody_suffix h
  · exact cuts_piece quote (escapedText_isPrefix cs)

theorem cuts_readSingle (c : Char) (cs : List Char) : Cuts c cs (readSingle c cs) := by
  unfold readSingle
  split
  · exact List.suffix_refl cs
  · exact cuts_piece c List.nil_prefix

theorem cuts_readSymbol (c : Char) (cs : List Char) : Cuts c cs (readSymbol c cs) := by
  cases cs with
  | nil => exact cuts_readSingle c []
  | cons d rest =>
    rw [readSymbol]
    split
    · exact List.suffix_cons d rest
    · exact cuts_readSingle c (d :: rest)

theorem cuts_read (c : Char) (cs : List Char) : Cuts c cs (read c cs) := by
  unfold read
  split
  · exact cuts_readWord c cs
  · split
    · exact cuts_readInteger c cs
    · split
      · exact cuts_readString c cs
      · exact cuts_readSymbol c cs

/-- a piece of text that is no lexeme stands at the start of a text -/
def Strays (text piece : List Char) : Prop :=
  ∃ (c : Char) (cs : List Char), text = c :: cs ∧ isGap c = false ∧ read c cs = .error piece

theorem Strays.isPrefix {text piece : List Char} (h : Strays text piece) :
    piece ≠ [] ∧ piece <+: text := by
  obtain ⟨c, cs, rfl, -, hread⟩ := h
  have hcuts := cuts_read c cs
  rwa [hread] at hcuts

/-- a lexeme and what is left after it make up the text -/
theorem exists_word {c : Char} {cs : List Char} {x : Lexeme} {r : Text.Rest cs}
    (h : read c cs = .ok (x, r)) : ∃ word, cs = word ++ r.1 := by
  have hcuts := cuts_read c cs
  rw [h] at hcuts
  obtain ⟨word, hword⟩ := hcuts
  exact ⟨word, hword.symm⟩

/-! ## places -/

/-- gaps and lexemes that are read before some text -/
inductive Passed : List Char → List Char → Prop
  | nil (rest : List Char) : Passed [] rest
  | gap {c : Char} {before rest : List Char} (hc : isGap c = true) (h : Passed before rest) :
      Passed (c :: before) rest
  | lexeme {word before rest : List Char} {x : Lexeme}
      (hx : Reads (word ++ (before ++ rest)) (before ++ rest) x) (h : Passed before rest) :
      Passed (word ++ before) rest

/-- what is left of a text at a column after some gaps and lexemes, if the text is at `start` -/
def Arrives (start : Nat) (text : List Char) (column : Nat) (rest : List Char) : Prop :=
  ∃ before, text = before ++ rest ∧ Passed before rest ∧ column = start + before.length

variable {start column : Nat} {rest : List Char}

theorem arrives_start (start : Nat) (text : List Char) : Arrives start text start text :=
  ⟨[], rfl, .nil text, rfl⟩

theorem Arrives.gap {c : Char} {cs : List Char} (hc : isGap c = true)
    (h : Arrives (start + 1) cs column rest) : Arrives start (c :: cs) column rest := by
  obtain ⟨before, rfl, hbefore, rfl⟩ := h
  refine ⟨c :: before, rfl, .gap hc hbefore, ?_⟩
  rw [List.length_cons]
  omega

theorem Arrives.lexeme {c : Char} {cs : List Char} {x : Lexeme} {r : Text.Rest cs}
    (hc : isGap c = false) (hread : read c cs = .ok (x, r))
    (h : Arrives (start + 1 + (cs.length - r.1.length)) r.1 column rest) :
    Arrives start (c :: cs) column rest := by
  obtain ⟨before, hr, hbefore, rfl⟩ := h
  obtain ⟨word, hword⟩ := exists_word hread
  have hreads : Reads (c :: word ++ (before ++ rest)) (before ++ rest) x :=
    ⟨c, cs, r, by rw [← hr, List.cons_append, ← hword], hc, hread, hr⟩
  refine ⟨c :: word ++ before, ?_, .lexeme hreads hbefore, ?_⟩
  · rw [List.append_assoc, ← hr, List.cons_append, ← hword]
  · have hlength := congrArg List.length hword
    rw [List.length_append] at hlength
    rw [List.length_append, List.length_cons]
    omega

/-- nothing is left at the end of the text only -/
theorem Arrives.eq_of_nil {text : List Char} (h : Arrives start text column []) :
    column = start + text.length := by
  obtain ⟨before, rfl, -, rfl⟩ := h
  rw [List.append_nil]

end Lexeme

/-! ## columns -/

open Lexeme (Arrives Reads Strays)

/-- the lexemes of a text, or the piece of it that is none, stand at their columns -/
def LexemesArrive (start : Nat) (text : List Char) :
    Except (Nat × List Char) (List Placed) → Prop
  | .error (column, piece) => ∃ rest, Arrives start text column rest ∧ Strays rest piece
  | .ok placed => Arrives start text (start + text.length) [] ∧
      ∀ p ∈ placed, ∃ rest more, Arrives start text p.column rest ∧ Reads rest more p.lexeme

/-- the lexemes of what is left of a text are some of the text -/
theorem LexemesArrive.mono {start start' : Nat} {text text' : List Char}
    {outcome : Except (Nat × List Char) (List Placed)}
    (h : ∀ column rest, Arrives start' text' column rest → Arrives start text column rest)
    (houtcome : LexemesArrive start' text' outcome) : LexemesArrive start text outcome := by
  cases outcome with
  | error stray =>
    obtain ⟨rest, hrest, hstrays⟩ := houtcome
    exact ⟨rest, h _ _ hrest, hstrays⟩
  | ok placed =>
    obtain ⟨hend, hplaced⟩ := houtcome
    have hend := h _ _ hend
    rw [hend.eq_of_nil] at hend
    refine ⟨hend, fun p hp => ?_⟩
    obtain ⟨rest, more, hrest, hreads⟩ := hplaced p hp
    exact ⟨rest, more, h _ _ hrest, hreads⟩

theorem lexemes_arrive (start : Nat) (text : List Char) :
    LexemesArrive start text (lexemes start text) := by
  fun_induction lexemes start text with
  | case1 start => exact ⟨Lexeme.arrives_start start [], nofun⟩
  | case2 start c cs hc ih => exact ih.mono fun _ _ => .gap hc
  | case3 start c cs hc piece hread =>
    exact ⟨c :: cs, Lexeme.arrives_start start _, c, cs, rfl, Bool.eq_false_iff.mpr hc, hread⟩
  | case4 start c cs hc x rest hle hread stray hstray ih =>
    rw [hstray] at ih
    exact ih.mono fun _ _ => .lexeme (Bool.eq_false_iff.mpr hc) hread
  | case5 start c cs hc x rest hle hread placed hplaced ih =>
    rw [hplaced] at ih
    have hc := Bool.eq_false_iff.mpr hc
    obtain ⟨hend, hrest⟩ := ih.mono fun _ _ => .lexeme hc hread
    exact ⟨hend, List.forall_mem_cons.mpr
      ⟨⟨c :: cs, rest, Lexeme.arrives_start start _, c, cs, _, rfl, hc, hread, rfl⟩, hrest⟩⟩

end NestedQuery
