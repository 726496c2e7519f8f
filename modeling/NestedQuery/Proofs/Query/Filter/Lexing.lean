import Mathlib.Data.List.Chain
import NestedQuery.Proofs.Text.Digits
import NestedQuery.Query.Filter.Lexeme

/-!
# Lexemes and their texts

Lexemes are read back from their texts, whatever white space stands between them, if some stands
between two words.

* `Lexeme.Written`             the texts of a lexeme; a string has two quotes to choose from;
* `Lexeme.Spaced`              the texts of lexemes with gaps between them;
* `Lexeme.Before`              lexemes that may stand before another one in a filter;
* `Lexeme.reads_written`       a text of a lexeme is read as it, where what follows cannot belong
                               to it;
* `lexemes_spaced`             so are the texts of lexemes.
-/

namespace NestedQuery

namespace Lexeme

/-! ## texts -/

/-- keywords, and the operator that is a word -/
def isWord : Lexeme → Bool
  | selector .star => false
  | selector _ => true
  | operator op => op.takesList
  | connective _ => true
  | boolean _ => true
  | _ => false

/-- the characters of a string between quotes: a backslash stands before a quote of that kind and
before a backslash, and a newline becomes a letter after a backslash -/
def escaped (quote : Char) : List Char → List Char
  | [] => []
  | c :: cs =>
    if c = '\n' then '\\' :: 'n' :: escaped quote cs
    else if c = quote ∨ c = '\\' then '\\' :: c :: escaped quote cs
    else c :: escaped quote cs

/-- the texts of a lexeme -/
inductive Written : Lexeme → List Char → Prop
  | openParen : Written openParen ['(']
  | closeParen : Written closeParen [')']
  | openBracket : Written openBracket ['[']
  | closeBracket : Written closeBracket [']']
  | comma : Written comma [',']
  | selector (s : Selector) : Written (selector s) s.text.toList
  | operator (op : Operator) : Written (operator op) op.text.toList
  | connective (c : Connective) : Written (connective c) c.text.toList
  | boolean (b : Bool) : Written (boolean b) (if b then "true" else "false").toList
  | integer (n : Int64) : Written (integer n) (Text.integer n.toInt)
  | string (s : String) {quote : Char} (hq : quote = '"' ∨ quote = '\'') :
    Written (string s) (quote :: (escaped quote s.toList ++ [quote]))

/-- white space that may stand between lexemes -/
def Gap (cs : List Char) : Prop := ∀ c ∈ cs, isGap c = true

/-- the texts of lexemes with gaps before and after them, which may be empty, but not between two
words -/
inductive Spaced : List Lexeme → List Char → Prop
  | nil {gap : List Char} (hgap : Gap gap) : Spaced [] gap
  | cons {gap text rest : List Char} {x : Lexeme} {xs : List Lexeme} (hgap : Gap gap)
      (hx : x.Written text) (hrest : Spaced xs rest)
      (hwords : x.isWord = true → ∀ y ∈ xs.head?, y.isWord = true →
        ∃ c ∈ rest.head?, isGap c = true) :
      Spaced (x :: xs) (gap ++ (text ++ rest))

/-! ## where a lexeme ends -/

/-- a character would go on with a text of the lexeme -/
def goesOn : Lexeme → Char → Bool
  | operator .gt, c => c == '='
  | operator .lt, c => c == '='
  | integer _, c => c.isDigit
  | x, c => x.isWord && Text.isAsciiWordChar c

/-- a text does not go on with one of the lexeme -/
def Ends (x : Lexeme) (rest : List Char) : Prop := ∀ c ∈ rest.head?, x.goesOn c = false

/-- what stands before an integer is no word and no integer, and what stands before an operator
is a selector -/
def Before (x : Lexeme) : Lexeme → Prop
  | integer _ => x.isWord = false ∧ ∀ n, x ≠ integer n
  | operator _ => ∃ s, x = selector s
  | _ => True

/-! ## reading one lexeme -/

/-- a lexeme is read at the start of a text, and the rest is left -/
def Reads (text rest : List Char) (x : Lexeme) : Prop :=
  ∃ (c : Char) (cs : List Char) (r : Text.Rest cs), text = c :: cs ∧ isGap c = false ∧
    read c cs = .ok (x, r) ∧ r.1 = rest

theorem isGap_of_letter {c : Char} (h : Text.isAsciiLetter c = true) : isGap c = false := by
  have hblank := Text.isBlank_of_isWordChar (Text.isWordChar_of_letter h)
  rw [Bool.eq_false_iff]
  intro hgap
  simp only [isGap, Bool.or_eq_true, beq_iff_eq] at hgap
  rcases hgap with ((rfl | rfl) | rfl) | rfl <;> cases hblank

theorem reads_word {c : Char} {cs rest : List Char} {x : Lexeme}
    (hc : Text.isAsciiLetter c = true) (hcs : ∀ d ∈ cs, Text.isAsciiWordChar d = true)
    (hx : keywords.lookup (String.ofList (c :: cs)) = some x)
    (hrest : ∀ d ∈ rest.head?, Text.isAsciiWordChar d = false) :
    Reads (c :: cs ++ rest) rest x := by
  refine ⟨c, cs ++ rest, .dropWhile Text.isAsciiWordChar _, rfl, isGap_of_letter hc, ?_,
    Text.dropWhile_append_of_stop hcs hrest⟩
  rw [read, if_pos hc, readWord, Text.takeWhile_append_of_stop hcs hrest, hx]

/-- a lexeme of one character, if that and the one after it are no operator -/
theorem reads_single {c : Char} {rest : List Char} {x : Lexeme} (hgap : isGap c = false)
    (hread : read c rest = readSymbol c rest) (hx : single? c = some x)
    (hpair : ∀ d ∈ rest.head?, pair? c d = none) : Reads (c :: rest) rest x := by
  refine ⟨c, rest, .whole rest, rfl, hgap, ?_, rfl⟩
  rw [hread]
  have hsingle : readSingle c rest = .ok (x, .whole rest) := by
    rw [readSingle, hx]
  cases rest with
  | nil => exact hsingle
  | cons d rest =>
    rw [readSymbol, hpair d rfl]
    exact hsingle

theorem pair?_eq_none {c d : Char} (hd : d ≠ '=') : pair? c d = none := by
  unfold pair?
  split
  case h_5 => rfl
  all_goals exact absurd rfl hd

theorem reads_pair {c d : Char} {rest : List Char} {op : Operator} (hgap : isGap c = false)
    (hread : read c (d :: rest) = readSymbol c (d :: rest)) (hpair : pair? c d = some op) :
    Reads (c :: d :: rest) rest (operator op) := by
  refine ⟨c, d :: rest, .after d rest, rfl, hgap, ?_, rfl⟩
  rw [hread, readSymbol, hpair]

/-! ### integers -/

theorem int64?_natAbs (n : Int64) :
    int64? (decide (n.toInt < 0)) (Nat.toDigits 10 n.toInt.natAbs) = some n := by
  have hlow := n.le_toInt
  have hhigh := n.toInt_lt
  have hvalue : (if decide (n.toInt < 0) = true then -(n.toInt.natAbs : Int)
      else n.toInt.natAbs) = n.toInt := by
    by_cases hn : n.toInt < 0
    · rw [if_pos (decide_eq_true hn)]
      omega
    · rw [if_neg (by simpa using hn)]
      omega
  rw [int64?, Nat.ofDigitChars_ten_toDigits, hvalue, if_pos ⟨by omega, by omega⟩,
    Int64.ofInt_toInt]

/-- the text of an integer starts with its sign or with a digit -/
theorem exists_integer_cons (n : Int) :
    ∃ c cs, Text.integer n = c :: cs ∧ (c = '-' ∨ c.isDigit = true) := by
  rw [Text.integer]
  split
  · exact ⟨_, _, rfl, .inl rfl⟩
  · obtain ⟨c, cs, hd⟩ := List.exists_cons_of_ne_nil (Nat.toDigits_ne_nil (n := n.natAbs) (b := 10))
    exact ⟨c, cs, hd, .inr (Text.isDigit_toDigits _ c (hd ▸ List.mem_cons_self))⟩

theorem isAsciiLetter_of_isDigit {c : Char} (h : c.isDigit = true) :
    Text.isAsciiLetter c = false := by
  rw [Bool.eq_false_iff]
  intro hc
  have hdigit := (Text.toNat_of_isDigit h).2
  exact absurd (Nat.le_trans (Text.toNat_of_isAsciiLetter hc).1 hdigit) (by decide)

theorem isGap_of_isDigit {c : Char} (h : c.isDigit = true) : isGap c = false := by
  rw [Bool.eq_false_iff]
  intro hgap
  simp only [isGap, Bool.or_eq_true, beq_iff_eq] at hgap
  rcases hgap with ((rfl | rfl) | rfl) | rfl <;> cases h

theorem reads_integer (n : Int64) {rest : List Char}
    (hrest : ∀ d ∈ rest.head?, d.isDigit = false) :
    Reads (Text.integer n.toInt ++ rest) rest (integer n) := by
  have hdigits := Text.isDigit_toDigits n.toInt.natAbs
  have hvalue := int64?_natAbs n
  obtain ⟨c, cs, hd⟩ :=
    List.exists_cons_of_ne_nil (Nat.toDigits_ne_nil (n := n.toInt.natAbs) (b := 10))
  rw [Text.integer]
  by_cases hn : n.toInt < 0
  · rw [if_pos hn]
    rw [decide_eq_true hn] at hvalue
    refine ⟨'-', Nat.toDigits 10 n.toInt.natAbs ++ rest, .dropWhile Char.isDigit _, rfl, rfl, ?_,
      Text.dropWhile_append_of_stop hdigits hrest⟩
    have hstart : startsWithDigit (Nat.toDigits 10 n.toInt.natAbs ++ rest) = true := by
      rw [hd] at hdigits ⊢
      exact hdigits c List.mem_cons_self
    rw [read, if_neg (by decide), hstart, if_pos (by decide), readInteger,
      Text.takeWhile_append_of_stop hdigits hrest, if_pos rfl, hvalue]
  · rw [if_neg hn]
    rw [decide_eq_false hn] at hvalue
    rw [hd] at hdigits hvalue ⊢
    obtain ⟨hc, hcs⟩ := List.forall_mem_cons.mp hdigits
    refine ⟨c, cs ++ rest, .dropWhile Char.isDigit _, rfl, isGap_of_isDigit hc, ?_,
      Text.dropWhile_append_of_stop hcs hrest⟩
    have hsign : c ≠ '-' := by
      rintro rfl
      cases hc
    rw [read, if_neg (Bool.eq_false_iff.mp (isAsciiLetter_of_isDigit hc)), hc, Bool.true_or,
      if_pos rfl, readInteger, Text.takeWhile_append_of_stop hcs hrest, if_neg hsign, hvalue]

/-! ### strings -/

section
variable {quote : Char} (hq : quote = '"' ∨ quote = '\'')
include hq

theorem quote_ne_backslash : quote ≠ '\\' := by
  rcases hq with rfl | rfl <;> decide

omit hq in
theorem stringBody_quote (rest : List Char) :
    stringBody quote (quote :: rest) = some ([], .after quote rest) := by
  rw [stringBody.eq_def]
  exact if_pos rfl

omit hq in
theorem stringBody_plain {c : Char} (hc : ¬(c = quote ∨ c = '\\')) (rest : List Char) :
    stringBody quote (c :: rest) = (stringBody quote rest).map fun (body, r) =>
      (c :: body, r.cons c) := by
  rw [stringBody.eq_def]
  dsimp only
  rw [if_neg (not_or.mp hc).1, if_neg (not_or.mp hc).2]

theorem stringBody_escape (d : Char) (rest : List Char) :
    stringBody quote ('\\' :: d :: rest) =
      (stringBody quote rest).map fun (body, r) => (unescaped d :: body, (r.cons d).cons '\\') := by
  rw [stringBody.eq_def]
  dsimp only
  rw [if_neg (quote_ne_backslash hq).symm, if_pos rfl]

theorem unescaped_of_special {c : Char} (h : c = quote ∨ c = '\\') : unescaped c = c := by
  rcases h with rfl | rfl
  · rcases hq with rfl | rfl <;> rfl
  · rfl

/-- what is written between quotes is read, and ends at the closing quote -/
theorem stringBody_escaped (cs rest : List Char) :
    ∃ r, stringBody quote (escaped quote cs ++ quote :: rest) = some (cs, r) ∧ r.1 = rest := by
  induction cs with
  | nil =>
    refine ⟨.after quote rest, ?_, rfl⟩
    exact stringBody_quote rest
  | cons c cs ih =>
    obtain ⟨r, hr, hrest⟩ := ih
    rw [escaped]
    by_cases hn : c = '\n'
    · rw [if_pos hn, List.cons_append, List.cons_append, stringBody_escape hq, hr, hn]
      exact ⟨_, rfl, hrest⟩
    rw [if_neg hn]
    by_cases hc : c = quote ∨ c = '\\'
    · rw [if_pos hc, List.cons_append, List.cons_append, stringBody_escape hq, hr]
      refine ⟨(r.cons c).cons '\\', ?_, hrest⟩
      rw [Option.map_some, unescaped_of_special hq hc]
    · rw [if_neg hc, List.cons_append, stringBody_plain hc, hr]
      exact ⟨_, rfl, hrest⟩

theorem reads_string (s : String) (rest : List Char) :
    Reads (quote :: (escaped quote s.toList ++ [quote]) ++ rest) rest (string s) := by
  obtain ⟨r, hr, hrest⟩ := stringBody_escaped hq s.toList rest
  refine ⟨quote, escaped quote s.toList ++ quote :: rest, r, ?_, ?_, ?_, hrest⟩
  · rw [List.cons_append, List.append_assoc, List.singleton_append]
  · rcases hq with rfl | rfl <;> rfl
  · have hread : read quote (escaped quote s.toList ++ quote :: rest) =
        readString quote (escaped quote s.toList ++ quote :: rest) := by
      rcases hq with rfl | rfl <;> rfl
    rw [hread, readString, hr]
    dsimp only
    rw [String.ofList_toList]

end

/-! ## every lexeme -/

/-- a text of a lexeme is read as it, where what follows cannot belong to it -/
theorem reads_written {x : Lexeme} {text : List Char} (h : x.Written text) {rest : List Char}
    (hrest : x.Ends rest) : Reads (text ++ rest) rest x := by
  cases h with
  | openParen | closeParen | openBracket | closeBracket | comma =>
    exact reads_single rfl rfl rfl fun d _ => rfl
  | selector s =>
    cases s with
    | star => exact reads_single rfl rfl rfl fun d _ => rfl
    | any | all => exact reads_word rfl (List.all_eq_true.mp rfl) rfl hrest
  | operator op =>
    cases op with
    | eq | ne | ge | le => exact reads_pair rfl rfl rfl
    | gt | lt =>
      exact reads_single rfl rfl rfl fun d hd => pair?_eq_none (beq_eq_false_iff_ne.mp (hrest d hd))
    | isIn => exact reads_word rfl (List.all_eq_true.mp rfl) rfl hrest
  | connective c => cases c <;> exact reads_word rfl (List.all_eq_true.mp rfl) rfl hrest
  | boolean b => cases b <;> exact reads_word rfl (List.all_eq_true.mp rfl) rfl hrest
  | integer n => exact reads_integer n hrest
  | string s hq => exact reads_string hq s rest

/-! ## lexemes and gaps -/

/-- what the first character of a text of a lexeme tells about the lexeme -/
structure StartsWith (x : Lexeme) (c : Char) : Prop where
  word : Text.isAsciiWordChar c = true → x.isWord = true ∨ ∃ n, x = integer n
  digit : c.isDigit = true → ∃ n, x = integer n
  equals : c = '=' → ∃ op, x = operator op

theorem Written.startsWith {x : Lexeme} {text : List Char} (h : x.Written text) :
    ∃ c cs, text = c :: cs ∧ x.StartsWith c := by
  cases h with
  | openParen | closeParen | openBracket | closeBracket | comma =>
    exact ⟨_, _, rfl, nofun, nofun, nofun⟩
  | selector s =>
    cases s with
    | star => exact ⟨_, _, rfl, nofun, nofun, nofun⟩
    | any | all => exact ⟨_, _, rfl, fun _ => .inl rfl, nofun, nofun⟩
  | operator op =>
    cases op with
    | isIn => exact ⟨_, _, rfl, fun _ => .inl rfl, nofun, fun _ => ⟨_, rfl⟩⟩
    | eq | ne | gt | lt | ge | le => exact ⟨_, _, rfl, nofun, nofun, fun _ => ⟨_, rfl⟩⟩
  | connective c => cases c <;> exact ⟨_, _, rfl, fun _ => .inl rfl, nofun, nofun⟩
  | boolean b => cases b <;> exact ⟨_, _, rfl, fun _ => .inl rfl, nofun, nofun⟩
  | integer n =>
    obtain ⟨c, cs, htext, hc⟩ := exists_integer_cons n.toInt
    refine ⟨c, cs, htext, fun _ => .inr ⟨n, rfl⟩, fun _ => ⟨n, rfl⟩, ?_⟩
    rintro rfl
    rcases hc with hc | hc <;> cases hc
  | string s hq =>
    rcases hq with rfl | rfl
    · exact ⟨_, _, rfl, nofun, nofun, nofun⟩
    · exact ⟨_, _, rfl, nofun, nofun, nofun⟩

theorem goesOn_eq_true {x : Lexeme} {c : Char} (h : x.goesOn c = true) :
    (c = '=' ∧ ∃ op, x = operator op) ∨ (c.isDigit = true ∧ ∃ n, x = integer n) ∨
      (x.isWord = true ∧ Text.isAsciiWordChar c = true) := by
  unfold goesOn at h
  split at h
  · exact .inl ⟨beq_iff_eq.mp h, _, rfl⟩
  · exact .inl ⟨beq_iff_eq.mp h, _, rfl⟩
  · exact .inr (.inl ⟨h, _, rfl⟩)
  · exact .inr (.inr (Bool.and_eq_true_iff.mp h))

/-- a gap ends every lexeme -/
theorem goesOn_gap (x : Lexeme) {c : Char} (h : isGap c = true) : x.goesOn c = false := by
  rw [Bool.eq_false_iff]
  intro hx
  rcases goesOn_eq_true hx with ⟨rfl, -⟩ | ⟨hc, -⟩ | ⟨-, hc⟩
  · cases h
  · rw [isGap_of_isDigit hc] at h
    cases h
  · simp only [isGap, Bool.or_eq_true, beq_iff_eq] at h
    rcases h with ((rfl | rfl) | rfl) | rfl <;> cases hc

/-- what stands before a lexeme ends there, if the two are not both words -/
theorem Before.goesOn_eq_false {x y : Lexeme} (h : x.Before y) {c : Char} (hc : y.StartsWith c)
    (hwords : ¬(x.isWord = true ∧ y.isWord = true)) : x.goesOn c = false := by
  rw [Bool.eq_false_iff]
  intro hx
  rcases goesOn_eq_true hx with ⟨he, op, rfl⟩ | ⟨hd, n, rfl⟩ | ⟨hword, hw⟩
  · obtain ⟨op', rfl⟩ := hc.equals he
    obtain ⟨s, hs⟩ := h
    cases hs
  · obtain ⟨m, rfl⟩ := hc.digit hd
    exact h.2 n rfl
  · rcases hc.word hw with hy | ⟨m, rfl⟩
    · exact hwords ⟨hword, hy⟩
    · rw [h.1] at hword
      cases hword

theorem Spaced.ends {x : Lexeme} {xs : List Lexeme} {rest : List Char} (h : Spaced xs rest)
    (hbefore : ∀ y ∈ xs.head?, x.Before y)
    (hwords : x.isWord = true → ∀ y ∈ xs.head?, y.isWord = true →
      ∃ c ∈ rest.head?, isGap c = true) : x.Ends rest := by
  intro c hc
  cases h with
  | nil hgap => exact goesOn_gap x (hgap c (List.mem_of_mem_head? hc))
  | @cons gap text rest y ys hgap hy hrest _ =>
    cases gap with
    | cons d gap =>
      cases Option.mem_some.mp hc
      exact goesOn_gap x (hgap _ List.mem_cons_self)
    -- the next lexeme follows at once, so that the two are not both words
    | nil =>
      obtain ⟨d, ds, rfl, hstart⟩ := hy.startsWith
      cases Option.mem_some.mp hc
      by_cases hboth : x.isWord = true ∧ y.isWord = true
      · obtain ⟨d', hd', hgap'⟩ := hwords hboth.1 y rfl hboth.2
        cases Option.mem_some.mp hd'
        exact goesOn_gap x hgap'
      · exact (hbefore y rfl).goesOn_eq_false hstart hboth

/-! ## texts on one line -/

theorem newline_ne_quote {quote : Char} (hq : quote = '"' ∨ quote = '\'') : '\n' ≠ quote := by
  rcases hq with rfl | rfl <;> decide

theorem newline_not_mem_escaped {quote : Char} (hq : quote = '"' ∨ quote = '\'') (cs : List Char) :
    '\n' ∉ escaped quote cs := by
  have hquote := newline_ne_quote hq
  induction cs with
  | nil => exact List.not_mem_nil
  | cons c cs ih =>
    rw [escaped]
    by_cases hc : c = '\n'
    · rw [if_pos hc]
      simpa using ih
    · rw [if_neg hc]
      split
      · simpa [Ne.symm hc] using ih
      · simpa [Ne.symm hc] using ih

theorem newline_not_mem_integer (n : Int) : '\n' ∉ Text.integer n := by
  have hdigits : '\n' ∉ Nat.toDigits 10 n.natAbs := fun h => nomatch Text.isDigit_toDigits _ _ h
  rw [Text.integer]
  split
  · exact List.not_mem_cons_of_ne_of_not_mem (by decide) hdigits
  · exact hdigits

theorem Written.newline_not_mem {x : Lexeme} {text : List Char} (h : x.Written text) :
    '\n' ∉ text := by
  cases h with
  | openParen | closeParen | openBracket | closeBracket | comma => decide
  | selector s => cases s <;> decide
  | operator op => cases op <;> decide
  | connective c => cases c <;> decide
  | boolean b => cases b <;> decide
  | integer n => exact newline_not_mem_integer n.toInt
  | @string s quote hq =>
    simpa [newline_ne_quote hq] using newline_not_mem_escaped hq s.toList

/-- a text with gaps is on one line -/
theorem Spaced.newline_not_mem {xs : List Lexeme} {text : List Char} (h : Spaced xs text) :
    '\n' ∉ text := by
  have hgap {gap : List Char} (hgap : Gap gap) : '\n' ∉ gap := fun h => nomatch hgap _ h
  induction h with
  | nil h => exact hgap h
  | cons h hx _ _ ih =>
    rw [List.mem_append, List.mem_append]
    rintro (hc | hc | hc)
    · exact hgap h hc
    · exact hx.newline_not_mem hc
    · exact ih hc

end Lexeme

/-! ## all lexemes -/

theorem lexemes_append {gap : List Char} (h : Lexeme.Gap gap) (column : Nat) (rest : List Char) :
    lexemes column (gap ++ rest) = lexemes (column + gap.length) rest := by
  induction gap generalizing column with
  | nil => rfl
  | cons c gap ih =>
    obtain ⟨hc, hgap⟩ := List.forall_mem_cons.mp h
    rw [List.cons_append, lexemes_gap hc, ih hgap, List.length_cons, Nat.add_assoc,
      Nat.add_comm 1]

/-- the texts of lexemes are read as them, whatever gaps stand between them -/
theorem lexemes_spaced {xs : List Lexeme} {text : List Char} (h : Lexeme.Spaced xs text)
    (hbefore : xs.IsChain Lexeme.Before) (column : Nat) :
    ∃ placed, lexemes column text = .ok placed ∧ placed.map Placed.lexeme = xs := by
  induction h generalizing column with
  | @nil gap hgap =>
    refine ⟨[], ?_, rfl⟩
    rw [← List.append_nil gap, lexemes_append hgap, lexemes_nil]
  | @cons gap text rest x xs hgap hx hrest hwords ih =>
    obtain ⟨hfirst, htail⟩ := List.isChain_cons.mp hbefore
    obtain ⟨c, cs, ⟨rest', hle⟩, htext, hc, hread, rfl⟩ :=
      Lexeme.reads_written hx (hrest.ends hfirst hwords)
    obtain ⟨placed, hplaced, hmap⟩ :=
      ih htail (column + gap.length + 1 + (cs.length - rest'.length))
    refine ⟨⟨column + gap.length, x⟩ :: placed, ?_, congrArg _ hmap⟩
    rw [lexemes_append hgap, htext, lexemes, if_neg (Bool.eq_false_iff.mp hc), hread]
    dsimp only
    rw [hplaced]

end NestedQuery
