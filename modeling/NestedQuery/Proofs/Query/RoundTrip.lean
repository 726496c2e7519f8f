import NestedQuery.Proofs.Query.Layout
import NestedQuery.Proofs.Query.Resolved

/-!
# From a query to its texts and back

Every text of a query is read as that query, however it is laid out.

* `Line.ofText?_written`         a line is recognized by its text;
* `SpellsLines`                  the tokens of lines, whatever lines follow;
* `Member.Laid.spells`           the lines of members have tokens that stand for these;
* `Query.ofText_written`         a text of a query is read as it, and there are such texts.
-/

namespace NestedQuery

open Text (IsName Blanks Core)

/-! ## lines are recognized -/

namespace Line

theorem isOpening_append {gap : List Char} (h : Blanks gap) : isOpening (gap ++ ['{']) = true := by
  rw [isOpening, h.skipBlanks_append]
  rfl

theorem isName_query : IsName "query" :=
  ⟨'q', ['u', 'e', 'r', 'y'], rfl, rfl, List.all_eq_true.mp rfl⟩

/-- where a name is followed by white space and no other name, it does not open a query -/
theorem rootOpen?_eq_none {text rest : List Char} {name : String}
    (hname : Text.name? text = some (name, rest))
    (hrest : Text.name? (Text.skipBlanks rest) = none) : rootOpen? text = none := by
  rw [rootOpen?, Option.bind_eq_none_iff]
  intro rest' hquery
  unfold afterQuery? at hquery
  split at hquery
  · rename_i c cs
    split at hquery
    · rename_i hblank
      cases hquery
      have hquery : Text.name? ("query".toList ++ c :: rest') = some ("query", c :: rest') := by
        refine Text.name?_append isName_query fun d hd => ?_
        cases Option.mem_some.mp hd
        exact Text.isWordChar_of_isBlank hblank
      have hspelled : "query".toList = ['q', 'u', 'e', 'r', 'y'] := rfl
      rw [hspelled, List.cons_append, List.cons_append, List.cons_append, List.cons_append,
        List.cons_append, List.nil_append, hname] at hquery
      cases hquery
      rw [Text.skipBlanks_cons, if_pos hblank] at hrest
      rw [hrest, Option.bind_none]
    · cases hquery
  · cases hquery

section
variable {text rest : List Char} {name : String} (hname : Text.name? text = some (name, rest))
include hname

theorem ne_close_of_name : text ≠ ['}'] := by
  rintro rfl
  cases hname

variable (hrest : Text.name? (Text.skipBlanks rest) = none)
include hrest

theorem ofText?_relationshipOpen {cast : Option String}
    (h : relationshipOpen? text = some (name, cast)) :
    ofText? text = some (.relationshipOpen name cast) := by
  rw [ofText?, if_neg (ne_close_of_name hname), rootOpen?_eq_none hname hrest, h]

theorem ofText?_attribute {filter : Option (Nat × List Char)} (h : relationshipOpen? text = none)
    (ha : attribute? text = some (name, filter)) :
    ofText? text = some (.attribute name filter) := by
  rw [ofText?, if_neg (ne_close_of_name hname), rootOpen?_eq_none hname hrest, h, ha]
  rfl

end

/-- the words after a name decide whether the line opens a block -/
theorem relationshipOpen?_eq_none {text rest : List Char} {name : String}
    (hname : Text.name? text = some (name, rest))
    (hrest : ∀ c ∈ (Text.skipBlanks rest).head?, c ≠ '{' ∧ c ≠ '(') :
    relationshipOpen? text = none := by
  rw [relationshipOpen?, hname, Option.bind_some]
  have hopening : isOpening rest = false := by
    rw [isOpening, beq_eq_false_iff_ne]
    intro he
    rw [he] at hrest
    exact (hrest '{' rfl).1 rfl
  dsimp only
  rw [hopening]
  split
  · rename_i h
    cases h
  · split
    · rename_i rest' hrest'
      rw [hrest'] at hrest
      exact absurd rfl (hrest '(' rfl).2
    · rfl

/-- a brace or a bracket after a gap ends the name before it -/
theorem head_not_word {gap rest : List Char} {c : Char} (h : Blanks gap)
    (hc : Text.isWordChar c = false) :
    ∀ d ∈ (gap ++ c :: rest).head?, Text.isWordChar d = false :=
  h.head_not_word fun d hd => by
    cases Option.mem_some.mp hd
    exact hc

theorem rootOpen?_written {model : String} {text : List Char} (h : (rootOpen model).Written text) :
    rootOpen? text = some model := by
  cases h with
  | @rootOpen _ gap gap' hmodel hne hgap hgap' =>
    obtain ⟨c, gap, rfl⟩ := List.exists_cons_of_ne_nil hne
    have hc := hgap c List.mem_cons_self
    have hrest : Blanks gap := fun d hd => hgap d (List.mem_cons_of_mem _ hd)
    have hquery : afterQuery? ("query".toList ++ (c :: gap ++ (model.toList ++ (gap' ++ ['{'])))) =
        some (gap ++ (model.toList ++ (gap' ++ ['{']))) := if_pos hc.1
    rw [rootOpen?, hquery, Option.bind_some, hrest.name?_append hmodel (head_not_word hgap' rfl),
      Option.bind_some]
    dsimp only
    rw [isOpening_append hgap']
    rfl

theorem castOpening?_written {cast : String} {gap₂ gap₃ gap₄ : List Char} (hcast : IsName cast)
    (h₂ : Blanks gap₂) (h₃ : Blanks gap₃) (h₄ : Blanks gap₄) :
    castOpening? (gap₂ ++ (cast.toList ++ (gap₃ ++ ')' :: (gap₄ ++ ['{'])))) = some cast := by
  have hskip : Text.skipBlanks (gap₃ ++ ')' :: (gap₄ ++ ['{'])) = ')' :: (gap₄ ++ ['{']) := by
    rw [h₃.skipBlanks_append, Text.skipBlanks_of_not_blank rfl]
  rw [castOpening?, h₂.name?_append hcast (head_not_word h₃ rfl), Option.bind_some]
  dsimp only
  rw [hskip]
  exact if_pos (isOpening_append h₄)

/-- a block with a class -/
theorem ofText?_cast {name cast : String} {rest gap : List Char} (hname : IsName name)
    (hgap : Blanks gap) (hcast : castOpening? rest = some cast) :
    ofText? (name.toList ++ (gap ++ '(' :: rest)) = some (.relationshipOpen name (some cast)) := by
  have hfound :
      Text.name? (name.toList ++ (gap ++ '(' :: rest)) = some (name, gap ++ '(' :: rest) :=
    Text.name?_append hname (head_not_word hgap rfl)
  have hskip : Text.skipBlanks (gap ++ '(' :: rest) = '(' :: rest := by
    rw [hgap.skipBlanks_append, Text.skipBlanks_of_not_blank rfl]
  refine ofText?_relationshipOpen hfound (by rw [hskip]; rfl) ?_
  have hopening : ¬isOpening (gap ++ '(' :: rest) = true := by
    rw [isOpening, hskip]
    exact Bool.false_ne_true
  rw [relationshipOpen?, hfound, Option.bind_some]
  show (if isOpening _ = true then _ else _) = _
  rw [if_neg hopening, hskip]
  show (castOpening? rest).map _ = _
  rw [hcast]
  rfl

/-- an attribute with a filter -/
theorem ofText?_filtered {name : String} {gap : List Char} (text : List Char)
    (hname : IsName name) (hgap : Blanks gap) :
    ofText? (name.toList ++ (gap ++ '[' :: (text ++ [']']))) =
      some (.attribute name (some (name.toList.length + gap.length + 1, text))) := by
  have hfound : Text.name? (name.toList ++ (gap ++ '[' :: (text ++ [']']))) =
      some (name, gap ++ '[' :: (text ++ [']'])) :=
    Text.name?_append hname (head_not_word hgap rfl)
  have hskip : Text.skipBlanks (gap ++ '[' :: (text ++ [']'])) = '[' :: (text ++ [']']) := by
    rw [hgap.skipBlanks_append, Text.skipBlanks_of_not_blank rfl]
  have hblock := relationshipOpen?_eq_none hfound fun c hc => by
    rw [hskip] at hc
    cases Option.mem_some.mp hc
    decide
  have hlength : (name.toList ++ (gap ++ '[' :: (text ++ [']']))).length - (text ++ [']']).length =
      name.toList.length + gap.length + 1 := by
    simp only [List.length_append, List.length_cons]
    omega
  refine ofText?_attribute hfound (by rw [hskip]; rfl) hblock ?_
  rw [attribute?, hfound, Option.bind_some]
  dsimp only
  rw [hskip]
  show (if (text ++ [']']).getLast? = some ']' then some (_, some (_, _)) else _) = _
  rw [List.getLast?_concat, if_pos rfl, List.dropLast_concat, hlength]

/-- a line is recognized by its text -/
theorem ofText?_written {l : Line} {text : List Char} (h : l.Written text) :
    ofText? text = some l := by
  cases h with
  | rootOpen hmodel hne hgap hgap' =>
    have hroot := rootOpen?_written (.rootOpen hmodel hne hgap hgap')
    have hclose (rest : List Char) : ¬"query".toList ++ rest = ['}'] :=
      fun h => absurd (List.cons.inj h).1 (by decide : 'q' ≠ '}')
    rw [ofText?, if_neg (hclose _), hroot]
  | @relationshipOpen name gap hname hgap =>
    have hfound : Text.name? (name.toList ++ (gap ++ ['{'])) = some (name, gap ++ ['{']) :=
      Text.name?_append hname (head_not_word hgap rfl)
    refine ofText?_relationshipOpen hfound ?_ ?_
    · rw [hgap.skipBlanks_append]
      rfl
    · rw [relationshipOpen?, hfound, Option.bind_some]
      exact if_pos (isOpening_append hgap)
  | castOpen hname hcast h₁ h₂ h₃ h₄ =>
    exact ofText?_cast hname h₁ (castOpening?_written hcast h₂ h₃ h₄)
  | close => rfl
  | @plain name hname =>
    have hfound : Text.name? (name.toList ++ []) = some (name, []) :=
      Text.name?_append hname fun c hc => absurd hc (Option.not_mem_none c)
    rw [List.append_nil] at hfound
    have hblock := relationshipOpen?_eq_none hfound fun c hc => absurd hc (Option.not_mem_none c)
    refine ofText?_attribute hfound rfl hblock ?_
    rw [attribute?, hfound]
    rfl
  | filtered text hname hgap => exact ofText?_filtered text hname hgap

/-! ## lines are trimmed -/

theorem Written.core {l : Line} {text : List Char} (h : l.Written text) : Core text := by
  cases h with
  | @rootOpen model gap gap' =>
    exact isName_query.core_append (c := '{') (by simp [List.getLast?_cons]) rfl
  | relationshipOpen hname hgap => exact hname.core_append List.getLast?_concat rfl
  | castOpen hname => exact hname.core_append (c := '{') (by simp [List.getLast?_cons]) rfl
  | close =>
    have hbrace : ∀ c ∈ some '}', Text.isBlank c = false := fun c hc => by
      cases Option.mem_some.mp hc
      rfl
    exact ⟨List.cons_ne_nil _ _, hbrace, hbrace⟩
  | plain hname => exact hname.core
  | filtered text hname => exact hname.core_append (c := ']') (by simp [List.getLast?_cons]) rfl

/-- the filter of a line, if any, is on one line -/
def OneLine : Line → Prop
  | .attribute _ (some (_, text)) => '\n' ∉ text
  | _ => True

theorem Written.newline_not_mem {l : Line} {text : List Char} (h : l.Written text)
    (hl : l.OneLine) : '\n' ∉ text := by
  cases h with
  | rootOpen hmodel _ hgap hgap' =>
    simp [hmodel.newline_not_mem, hgap.newline_not_mem, hgap'.newline_not_mem]
  | relationshipOpen hname hgap => simp [hname.newline_not_mem, hgap.newline_not_mem]
  | castOpen hname hcast h₁ h₂ h₃ h₄ =>
    simp [hname.newline_not_mem, hcast.newline_not_mem, h₁.newline_not_mem, h₂.newline_not_mem,
      h₃.newline_not_mem, h₄.newline_not_mem]
  | close => decide
  | plain hname => exact hname.newline_not_mem
  | filtered text hname hgap =>
    have htext : '\n' ∉ text := hl
    simp [hname.newline_not_mem, hgap.newline_not_mem, htext]

theorem Shown.newline_not_mem {l : Line} {line : List Char} (h : l.Shown line) (hl : l.OneLine) :
    '\n' ∉ line := by
  obtain ⟨before, text, after, hbefore, htext, hafter, rfl⟩ := h
  simp [hbefore.newline_not_mem, htext.newline_not_mem hl, hafter.newline_not_mem]

/-- a line counts with its text -/
theorem Shown.numberFrom_cons {l : Line} {line : List Char} (h : l.Shown line) :
    ∃ text, l.Written text ∧ ∀ n rest,
      Text.numberFrom n (line :: rest) = (n, text) :: Text.numberFrom (n + 1) rest := by
  obtain ⟨before, text, after, hbefore, htext, hafter, rfl⟩ := h
  refine ⟨text, htext, fun n rest => ?_⟩
  have htrimmed := Text.trimmed_core hbefore htext.core hafter
  obtain ⟨c, cs, rfl⟩ := List.exists_cons_of_ne_nil htext.core.ne_nil
  rw [Text.numberFrom, htrimmed]

theorem lineTokens_written {l : Line} {text : List Char} (h : l.Written text) (n : Nat) :
    lineTokens n text = match l with
      | .rootOpen model => .ok [.rootOpen model]
      | .relationshipOpen name none => .ok [.relationshipOpen name]
      | .relationshipOpen name (some cast) => .ok [.relationshipOpen name, .cast cast]
      | .close => .ok [.close]
      | .attribute name filter => attributeTokens n text name filter := by
  rw [lineTokens, ofText?_written h]
  cases l with
  | rootOpen | close | «attribute» => rfl
  | relationshipOpen name cast => cases cast <;> rfl

end Line

open Parse (Between between_nil_iff between_cons_iff between_append_iff between_followed)

/-- the tokens of numbered lines, before those of some more lines -/
def SpellsLines (lines : List (List Char)) (tokens : List Token) : Prop :=
  ∀ n, ∃ m, ∀ more, Between (tokensOfLines (Text.numberFrom n (lines ++ more)))
    (tokensOfLines (Text.numberFrom m more)) tokens

theorem SpellsLines.nil : SpellsLines [] [] := fun n => ⟨n, fun _ => between_nil_iff.mpr rfl⟩

theorem SpellsLines.append {lines lines' : List (List Char)} {ts us : List Token}
    (h : SpellsLines lines ts) (h' : SpellsLines lines' us) :
    SpellsLines (lines ++ lines') (ts ++ us) := by
  intro n
  obtain ⟨m, hm⟩ := h n
  obtain ⟨m', hm'⟩ := h' m
  refine ⟨m', fun more => between_append_iff.mpr ⟨_, ?_, hm' more⟩⟩
  rw [List.append_assoc]
  exact hm _

theorem SpellsLines.cons {line : List Char} {lines : List (List Char)} {ts us : List Token}
    (h : SpellsLines [line] ts) (h' : SpellsLines lines us) :
    SpellsLines (line :: lines) (ts ++ us) := h.append h'

theorem Line.Shown.spells {l : Line} {line : List Char} {tokens : List Token} (h : l.Shown line)
    (htokens : ∀ n text, l.Written text → lineTokens n text = .ok tokens) :
    SpellsLines [line] tokens := by
  intro n
  obtain ⟨text, htext, hnumber⟩ := h.numberFrom_cons
  refine ⟨n + 1, fun more => ?_⟩
  rw [List.singleton_append, hnumber, tokensOfLines_cons, htokens n text htext]
  exact between_followed n tokens _

theorem Line.Shown.spells_close {line : List Char} (h : Line.close.Shown line) :
    SpellsLines [line] [.close] :=
  h.spells fun n text htext => by rw [lineTokens_written htext]

theorem Line.Shown.spells_attribute {name : String} {line : List Char}
    (h : (Line.attribute name none).Shown line) : SpellsLines [line] [.attr name] :=
  h.spells fun n text htext => by
    rw [lineTokens_written htext]
    rfl

theorem Line.Shown.spells_filtered {name : String} {start : Nat} {text line : List Char}
    {tokens : List Token} (h : (Line.attribute name (some (start, text))).Shown line)
    (htokens : Filter.tokens start text = .ok tokens) :
    SpellsLines [line] (.attr name :: tokens) :=
  h.spells fun n text htext => by
    rw [lineTokens_written htext]
    dsimp only
    rw [attributeTokens, htokens]

/-- the class of a block is its model, and without one the model is the target -/
theorem Line.Shown.spells_opening {s : Schema} (hs : s.Sound) {r : Relationship} {model : String}
    {cast : Option String} {line : List Char} (h : (Line.relationshipOpen r.name cast).Shown line)
    (hvariant : s.isVariantOf model r.target = true)
    (hcast : cast = some model ∨ cast = none ∧ model = r.target) :
    ∃ ts, s.CastTo r.target ts model ∧ SpellsLines [line] (.relationshipOpen r.name :: ts) := by
  rcases hcast with rfl | ⟨rfl, rfl⟩
  · obtain ⟨⟨m, hm⟩, hdescends⟩ := hs.isVariantOf_iff_descendsFrom.mp hvariant
    exact ⟨_, .cast hm hdescends, h.spells fun n text htext => by rw [lineTokens_written htext]⟩
  · exact ⟨_, .none, h.spells fun n text htext => by rw [lineTokens_written htext]⟩

theorem Text.Blanks.numberFrom_cons {line : List Char} (h : Blanks line) (n : Nat)
    (rest : List (List Char)) : numberFrom n (line :: rest) = numberFrom (n + 1) rest := by
  rw [numberFrom, h.trimmed_eq_nil]

theorem Text.numberFrom_blanks {lines : List (List Char)} (h : ∀ line ∈ lines, Blanks line)
    (n : Nat) : ∃ m, ∀ more, numberFrom n (lines ++ more) = numberFrom m more := by
  induction lines generalizing n with
  | nil => exact ⟨n, fun _ => rfl⟩
  | cons line rest ih =>
    obtain ⟨hline, hrest⟩ := List.forall_mem_cons.mp h
    obtain ⟨m, hm⟩ := ih hrest (n + 1)
    refine ⟨m, fun more => ?_⟩
    rw [List.cons_append, hline.numberFrom_cons, hm]

theorem Text.Blanks.spells {line : List Char} (h : Blanks line) : SpellsLines [line] [] := by
  refine fun n => ⟨n + 1, fun more => ?_⟩
  rw [List.singleton_append, h.numberFrom_cons]
  exact between_nil_iff.mpr rfl

/-! ## members -/

theorem Member.Laid.newline_not_mem {members : List Member} {lines : List (List Char)}
    (h : Laid members lines) : ∀ line ∈ lines, '\n' ∉ line := by
  induction h with
  | nil => exact nofun
  | blank hline _ ih => exact List.forall_mem_cons.mpr ⟨hline.newline_not_mem, ih⟩
  | plain hline _ ih => exact List.forall_mem_cons.mpr ⟨hline.newline_not_mem True.intro, ih⟩
  | filtered htext hline _ ih =>
    obtain ⟨_, -, hspaced⟩ := htext
    exact List.forall_mem_cons.mpr ⟨hline.newline_not_mem hspaced.newline_not_mem, ih⟩
  | block _ hopening _ hclosing _ ihc ih =>
    refine List.forall_mem_cons.mpr ⟨hopening.newline_not_mem True.intro, ?_⟩
    refine List.forall_mem_append.mpr ⟨ihc, List.forall_mem_cons.mpr ⟨?_, ih⟩⟩
    exact hclosing.newline_not_mem True.intro

section
variable {s : Schema} (hs : s.Sound)
include hs

/-- the lines of members have tokens that stand for these -/
theorem Member.Laid.spells {members : List Member} {lines : List (List Char)}
    (h : Laid members lines) {model : String} (hr : s.Resolves model members)
    (hf : Regular members) :
    ∃ tokens, s.Derives model tokens members ∧ SpellsLines lines tokens := by
  induction h generalizing model with
  | nil => exact ⟨[], .nil model, .nil⟩
  | blank hline _ ih =>
    obtain ⟨tokens, hd, hspells⟩ := ih hr hf
    exact ⟨tokens, hd, hline.spells.cons hspells⟩
  | plain hline _ ih =>
    cases hr with
    | attr _ ha hr =>
      cases hf with
      | plain _ hf =>
        obtain ⟨tokens, hd, hspells⟩ := ih hr hf
        exact ⟨_, .attr ha .none hd, hline.spells_attribute.cons hspells⟩
  | filtered htext hline _ ih =>
    cases hr with
    | attr _ ha hr =>
      cases hf with
      | filtered _ hfilter hf =>
        obtain ⟨tokens, hd, hspells⟩ := ih hr hf
        obtain ⟨ts, hts, htokens⟩ := hfilter.tokens_written htext
        exact ⟨_, .attr ha (.some hts) hd, (hline.spells_filtered (htokens _)).cons hspells⟩
  | @block r block cast children rest opening closing inner lines hcast hopening hinner hclosing
      _ ihc ih =>
    cases hr with
    | block hrel hvariant hrc hr =>
      cases hf with
      | block _ _ hfc hf =>
        obtain ⟨us, hdc, hspellsc⟩ := ihc hrc hfc
        obtain ⟨vs, hd, hspells⟩ := ih hr hf
        obtain ⟨ts, hts, hopens⟩ := hopening.spells_opening hs hvariant hcast
        have hcloses := hclosing.spells_close.cons hspells
        exact ⟨_, .block hrel hts hdc hd, hopens.cons (hspellsc.append hcloses)⟩

/-! ## queries -/

theorem Query.Written.derives {q : Query} {text : String} (h : q.Written text)
    (hq : q.Resolved s) (hf : Member.Regular q.children) :
    ∃ ls, tokenize text = streamOf ls ∧ q.Derives s (tokensOf ls) := by
  obtain ⟨before, after, inner, opening, closing, hbefore, hopening, hinner, hclosing, hafter,
    htext⟩ := h
  have hlines : ∀ line ∈ before ++ opening :: (inner ++ closing :: after), '\n' ∉ line :=
    List.forall_mem_append.mpr ⟨fun line hline => (hbefore line hline).newline_not_mem,
      List.forall_mem_cons.mpr ⟨hopening.newline_not_mem True.intro,
        List.forall_mem_append.mpr ⟨hinner.newline_not_mem,
          List.forall_mem_cons.mpr ⟨hclosing.newline_not_mem True.intro,
            fun line hline => (hafter line hline).newline_not_mem⟩⟩⟩⟩
  obtain ⟨us, hd, hspells⟩ := hinner.spells hs hq.members hf
  -- the first line that counts is the opening one
  obtain ⟨n, hn⟩ := Text.numberFrom_blanks hbefore 1
  obtain ⟨first, hfirst, hnumber⟩ := hopening.numberFrom_cons
  have hnumbered : Text.numberedLines text.toList =
      (n, first) :: Text.numberFrom (n + 1) (inner ++ closing :: after) := by
    rw [Text.numberedLines, Text.numberFrom_joined htext hlines, hn, hnumber]
  -- and nothing that counts is after the closing one
  obtain ⟨k, hk⟩ := (hspells.append hclosing.spells_close) (n + 1)
  obtain ⟨k', hk'⟩ := Text.numberFrom_blanks hafter k
  have hend : Text.numberFrom k after = [] := by
    rw [← List.append_nil after, hk', Text.numberFrom_nil]
  have hbody := hk after
  rw [List.append_assoc, List.singleton_append, hend, tokensOfLines_nil] at hbody
  have hroot : rootTokens n first = .ok [.rootOpen q.model] := by
    rw [rootTokens, Line.rootOpen?_written hfirst]
  have hall : Between (tokenize text) [] (.rootOpen q.model :: (us ++ [.close])) := by
    rw [tokenize, hnumbered]
    dsimp only
    rw [hroot]
    exact between_append_iff.mpr ⟨_, between_followed n [.rootOpen q.model] _, hbody⟩
  obtain ⟨ls, hls, htokens⟩ := hall
  rw [List.append_nil] at hls
  exact ⟨ls, hls, hq.root, us, htokens, hd⟩

end

/-- a query of a schema whose names can be written and whose filters keep the rules has texts, and
every text of it, however it is laid out, is read as the query -/
theorem Query.ofText_written {s : Schema} (hs : s.Built) {q : Query} (hq : q.Resolved s)
    (hnames : q.Named) (hf : Member.Regular q.children) :
    (∃ text, q.Written text) ∧ ∀ text, q.Written text → ofText s text = .ok q := by
  refine ⟨exists_written hnames, fun text h => ?_⟩
  obtain ⟨ls, hls, hd⟩ := h.derives hs.sound hq hf
  rw [ofText, hls]
  exact ofTokens_of_derives hs.sound hd

namespace Samples

/-- a bracket, a brace, both quotes, a backslash and a newline -/
def awkward : String := "]\x7d\"'\\\n"

/-- a compound left operand, the least integer and a list -/
def coldest : Filter :=
  .joined .or
    (.joined .and (.term ⟨.all, .lt, .integer 0⟩) (.term ⟨.any, .ge, .integer Int64.minValue⟩))
    (.term ⟨.any, .isIn, .list [.integer (-80), .integer (-196)]⟩)

def cryoTubes : Query :=
  ⟨"Sample", [.attribute ⟨"Sample", "id", .integer⟩ none,
    .relationship ⟨"Sample", "tubes", "Tube", .many, "id", "sample"⟩ "CryoTube"
      [.attribute ⟨"CryoTube", "temperature", .integer⟩ (some coldest),
        .attribute ⟨"Tube", "type", .string⟩ (some (.term ⟨.star, .ne, .string awkward⟩))]]⟩

theorem suited_scalar {t : Term} (hlist : t.literal.isList = false) (hop : t.operator ≠ .isIn)
    (hkind : t.literal.kind? ≠ some .boolean) : t.Suited :=
  ⟨.scalar hlist, by simp [hlist, hop], fun h => absurd h hkind⟩

theorem regular_coldest : coldest.Regular := by
  refine ⟨?_, ?_, ?_⟩
  · intro t ht
    simp only [coldest, Filter.leaves, List.cons_append, List.nil_append, List.mem_cons,
      List.not_mem_nil, or_false] at ht
    rcases ht with rfl | rfl | rfl
    · exact suited_scalar rfl (by decide) (by decide)
    · exact suited_scalar rfl (by decide) (by decide)
    · exact ⟨.list (List.cons_ne_nil _ _) (by simp [Literal.isList]) (by simp [Literal.kind?]),
        by simp [Literal.isList], by simp [Literal.kind?]⟩
  · simp [coldest, Filter.leaves]
  · simp [coldest, Filter.leaves, Literal.kind?]

theorem regular_cryoTubes : Member.Regular cryoTubes.children := by
  refine .plain _ (.block _ _ (.filtered _ regular_coldest (.filtered _ ⟨?_, ?_, ?_⟩ .nil)) .nil)
  · exact List.forall_mem_singleton.mpr (suited_scalar rfl (by decide) (by decide))
  · simp [Filter.leaves]
  · simp [Filter.leaves]

theorem named_cryoTubes : cryoTubes.Named := by
  have hname {name : String} {c : Char} {cs : List Char} (h : name.toList = c :: cs)
      (hc : Text.isAsciiLetter c = true) (hcs : cs.all Text.isWordChar = true) : IsName name :=
    ⟨c, cs, h, hc, List.all_eq_true.mp hcs⟩
  exact ⟨hname rfl rfl rfl, .plain _ (hname rfl rfl rfl)
    (.block (hname rfl rfl rfl) (.inr (hname rfl rfl rfl))
      (.plain _ (hname rfl rfl rfl) (.plain _ (hname rfl rfl rfl) .nil)) .nil)⟩

theorem resolved_cryoTubes : cryoTubes.Resolved schema := by
  refine ⟨⟨_, by cbv⟩, .attr _ (by cbv) (.block (by cbv) (by cbv) ?_ (.nil _))⟩
  exact .attr _ (by cbv) (.attr _ (by cbv) (.nil _))

theorem ofText_written_samples :
    schema.Built ∧ cryoTubes.Resolved schema ∧ cryoTubes.Named ∧
      Member.Regular cryoTubes.children ∧ (∃ text, cryoTubes.Written text) ∧
      ∀ text, cryoTubes.Written text → Query.ofText schema text = .ok cryoTubes :=
  ⟨built, resolved_cryoTubes, named_cryoTubes, regular_cryoTubes,
    Query.ofText_written built resolved_cryoTubes named_cryoTubes regular_cryoTubes⟩

end Samples

end NestedQuery
