import NestedQuery.Proofs.Query.Blocks

/-!
# Texts and their first lines

What is wrong with the first lines of a text stays wrong whatever follows, and what is not finished
can be finished by closing the blocks that are open.

* `Error.OfLine`                 faults that a line has whatever lines are before it;
* `Misplaced`, `MisplacedIn`     tokens that may stand on a line, but not after the lines before it;
* `Schema.blocksAfter_append`    lines at the end of a text;
* `Schema.blocksAfter_eq_error`  the line at fault, and what its fault is;
* `Query.ofText_extended`        texts that go on;
* `Query.ofText_unexpected`      where a token is not expected, and where a text ends too early.
-/

namespace NestedQuery

/-! ## faults of a line -/

/-- a fault of a line or of a name on it, which does not depend on how the lines nest -/
def Error.OfLine : Error → Prop
  | .strayLine .. | .missingRoot .. | .filter .. | .unknownModel .. | .unknownAttribute ..
  | .unknownRelationship .. | .invalidCast .. => True
  | _ => False

theorem ofLine_of_lineTokens (n : Nat) (text : List Char) :
    FailsOnly Error.OfLine (lineTokens n text) := by
  unfold lineTokens
  split
  · exact failsOnly_error trivial
  · exact failsOnly_ok _
  · exact failsOnly_ok _
  · exact failsOnly_ok _
  · exact failsOnly_ok _
  · unfold attributeTokens
    split
    · exact failsOnly_ok _
    · split
      · exact failsOnly_ok _
      · exact failsOnly_error trivial

namespace Schema
variable (s : Schema)

theorem ofLine_of_modelNamed (model : String) : FailsOnly Error.OfLine (s.modelNamed model) := by
  unfold modelNamed
  split
  · exact failsOnly_ok _
  · exact failsOnly_error trivial

theorem ofLine_of_attributeOf (model name : String) :
    FailsOnly Error.OfLine (s.attributeOf model name) := by
  refine (ofLine_of_modelNamed s model).bind fun m _ => ?_
  split
  · exact failsOnly_ok _
  · exact failsOnly_error trivial

theorem ofLine_of_relationshipOf (model name : String) :
    FailsOnly Error.OfLine (s.relationshipOf model name) := by
  refine (ofLine_of_modelNamed s model).bind fun m _ => ?_
  split
  · exact failsOnly_ok _
  · exact failsOnly_error trivial

theorem ofLine_of_opened (model name : String) (ts : List Token) :
    FailsOnly Error.OfLine (s.opened model name ts) := by
  unfold opened
  split
  · refine (ofLine_of_relationshipOf s _ _).bind fun r _ => FailsOnly.map ?_ _
    refine (ofLine_of_modelNamed s _).bind fun m _ => ?_
    split
    · exact failsOnly_ok _
    · exact failsOnly_error trivial
  · exact (ofLine_of_relationshipOf s _ _).map _

end Schema

/-- the first token of a line that may not stand where some blocks are open: after the query
nothing may, and in a block no line may open the query -/
inductive Misplaced : Blocks → Token → Expectation → Prop
  | afterQuery (t : Token) : Misplaced [] t .endOfQuery
  | innerRoot (model : String) (outer : Blocks) (name : String) :
      Misplaced (model :: outer) (.rootOpen name) .member

/-- the error is about the first token of a line, which may not stand where the lines before it
lead -/
inductive MisplacedIn (run : List (Nat × List Char) → Except Error Blocks)
    (lines : List (Nat × List Char)) : Error → Prop
  | intro {before after : List (Nat × List Char)} {n : Nat} {text : List Char} {blocks : Blocks}
      {t : Token} {rest : List Token} {expected : Expectation}
      (hlines : lines = before ++ (n, text) :: after) (hbefore : run before = .ok blocks)
      (hts : lineTokens n text = .ok (t :: rest)) (ht : t.startsLine = true)
      (hm : Misplaced blocks t expected) : MisplacedIn run lines (.unexpectedToken ⟨n, t⟩ expected)

/-- lines before the others, through which the run goes -/
theorem MisplacedIn.append {run run' : List (Nat × List Char) → Except Error Blocks}
    {first lines : List (Nat × List Char)} (hrun : ∀ before, run' (first ++ before) = run before)
    {e : Error} (h : MisplacedIn run lines e) : MisplacedIn run' (first ++ lines) e := by
  cases h with
  | intro hlines hbefore hts ht hm =>
    exact .intro (by rw [hlines, List.append_assoc]) ((hrun _).trans hbefore) hts ht hm

namespace Schema
variable {s : Schema}

theorem advance_eq_error {n : Nat} {blocks : Blocks} {ts : List Token} (hts : Token.OnLine ts)
    {e : Error} (h : s.advance n blocks ts = .error e) :
    e.OfLine ∨ ∃ t rest expected, ts = t :: rest ∧ t.startsLine = true ∧
      Misplaced blocks t expected ∧ e = .unexpectedToken ⟨n, t⟩ expected := by
  cases blocks with
  | nil =>
    obtain ⟨t, rest, rfl, ht⟩ := hts.exists_cons
    cases h
    exact .inr ⟨t, rest, _, rfl, ht, .afterQuery t, rfl⟩
  | cons model outer =>
    cases hts with
    | rootOpen name =>
      cases h
      exact .inr ⟨_, [], _, rfl, rfl, .innerRoot model outer name, rfl⟩
    | opening | casting => exact .inl (ofLine_of_opened s _ _ _ e (map_eq_error.mp h))
    | close => cases h
    | «attribute» => exact .inl (ofLine_of_attributeOf s _ _ e (map_eq_error.mp h))

/-! ## more lines -/

theorem advanceAll_append (blocks : Blocks) (lines more : List (Nat × List Char)) :
    s.advanceAll blocks (lines ++ more) =
      (s.advanceAll blocks lines).bind fun blocks => s.advanceAll blocks more := by
  induction lines generalizing blocks with
  | nil => rfl
  | cons line lines ih =>
    obtain ⟨n, text⟩ := line
    rw [List.cons_append, advanceAll_cons, advanceAll_cons]
    cases lineTokens n text with
    | error e => rfl
    | ok ts =>
      rw [bind_ok, bind_ok]
      cases s.advance n blocks ts with
      | error e => rfl
      | ok blocks' => exact ih blocks'

theorem blocksAfter_append {lines : List (Nat × List Char)} (h : lines ≠ [])
    (more : List (Nat × List Char)) :
    s.blocksAfter (lines ++ more) =
      (s.blocksAfter lines).bind fun blocks => s.advanceAll blocks more := by
  obtain ⟨⟨n, first⟩, rest, rfl⟩ := List.exists_cons_of_ne_nil h
  dsimp only [List.cons_append, blocksAfter]
  cases Line.rootOpen? first with
  | none => rfl
  | some model =>
    dsimp only
    cases s.modelNamed model with
    | error e => rfl
    | ok m => exact advanceAll_append [model] rest more

/-- where lines fail, there is a first one at fault; the blocks that are open before it tell which
tokens it may not have -/
theorem advanceAll_eq_error {blocks : Blocks} {lines : List (Nat × List Char)} {e : Error}
    (h : s.advanceAll blocks lines = .error e) :
    e.OfLine ∨ MisplacedIn (s.advanceAll blocks) lines e := by
  induction lines generalizing blocks with
  | nil => cases h
  | cons line lines ih =>
    obtain ⟨n, text⟩ := line
    rcases bind_eq_error.mp h with hts | ⟨ts, hts, h⟩
    · exact .inl (ofLine_of_lineTokens n text e hts)
    rcases bind_eq_error.mp h with hadvance | ⟨blocks', hadvance, h⟩
    · rcases advance_eq_error (onLine_of_lineTokens hts) hadvance with
        he | ⟨t, rest, expected, rfl, ht, hm, rfl⟩
      · exact .inl he
      · exact .inr (.intro (List.nil_append _).symm rfl hts ht hm)
    · rw [← List.singleton_append]
      refine (ih h).imp_right (MisplacedIn.append fun before => ?_)
      rw [List.singleton_append, advanceAll_cons, hts, bind_ok, hadvance, bind_ok]

theorem blocksAfter_eq_error {lines : List (Nat × List Char)} {e : Error}
    (h : s.blocksAfter lines = .error e) :
    (lines = [] ∧ e = .unexpectedEnd .rootOpen) ∨ e.OfLine ∨ MisplacedIn s.blocksAfter lines e := by
  cases lines with
  | nil =>
    cases h
    exact .inl ⟨rfl, rfl⟩
  | cons line lines =>
    obtain ⟨n, first⟩ := line
    refine .inr ?_
    rw [← List.singleton_append] at h ⊢
    rw [blocksAfter_append (List.cons_ne_nil _ _)] at h
    rcases bind_eq_error.mp h with hfirst | ⟨blocks, hfirst, h⟩
    · refine .inl ?_
      dsimp only [blocksAfter] at hfirst
      split at hfirst
      · cases hfirst
        trivial
      · rcases bind_eq_error.mp hfirst with hmodel | ⟨m, -, hrest⟩
        · exact ofLine_of_modelNamed s _ e hmodel
        · cases hrest
    · refine (advanceAll_eq_error h).imp_right (MisplacedIn.append fun before => ?_)
      rw [blocksAfter_append (List.cons_ne_nil _ _), hfirst, bind_ok]

theorem ne_nil_of_blocksAfter {lines : List (Nat × List Char)} {blocks : Blocks}
    (h : s.blocksAfter lines = .ok blocks) : lines ≠ [] := by
  rintro rfl
  cases h

/-- that a block is not closed is not found out before the end of the text -/
theorem blocksAfter_ne_unterminated (lines : List (Nat × List Char)) (model : String) :
    s.blocksAfter lines ≠ .error (.unterminatedBlock model) := by
  intro h
  rcases blocksAfter_eq_error h with ⟨-, he⟩ | he | he
  · cases he
  · exact he
  · cases he

/-! ## lines that close blocks -/

/-- closing lines close as many blocks as there are of them, and no line may be left over -/
theorem advanceAll_closes (blocks : Blocks) (n d : Nat) :
    s.advanceAll blocks (Text.numberFrom n (List.replicate d ['}'])) = .ok [] ↔
      blocks.length = d := by
  induction d generalizing blocks n with
  | zero =>
    rw [List.length_eq_zero_iff]
    exact ⟨fun h => Except.ok.inj h, fun h => congrArg Except.ok h⟩
  | succ d ih =>
    have hnumbered : Text.numberFrom n (List.replicate (d + 1) ['}']) =
        (n, ['}']) :: Text.numberFrom (n + 1) (List.replicate d ['}']) := rfl
    have hclose : lineTokens n ['}'] = .ok [.close] := rfl
    rw [hnumbered, advanceAll_cons, hclose, bind_ok]
    cases blocks with
    | nil => exact ⟨nofun, nofun⟩
    | cons model outer =>
      rw [List.length_cons, Nat.add_right_cancel_iff]
      exact ih outer (n + 1)

end Schema

/-! ## texts -/

namespace Query
variable {s : Schema} {text : String}

theorem exists_ofText_iff :
    (∃ q, ofText s text = .ok q) ↔ s.blocksAfter (Text.numberedLines text.toList) = .ok [] := by
  have houtcome := ofText_outcome s text
  constructor
  · rintro ⟨q, hq⟩
    rw [hq, map_ok] at houtcome
    obtain ⟨blocks, hblocks, hended⟩ := bind_eq_ok.mp houtcome.symm
    cases blocks with
    | nil => exact hblocks
    | cons => cases hended
  · intro h
    rw [h, bind_ok] at houtcome
    obtain ⟨q, hq, -⟩ := map_eq_ok.mp houtcome
    exact ⟨q, hq⟩

theorem ofText_eq_error_iff {e : Error} :
    ofText s text = .error e ↔ s.blocksAfter (Text.numberedLines text.toList) = .error e ∨
      ∃ model outer, s.blocksAfter (Text.numberedLines text.toList) = .ok (model :: outer) ∧
        e = .unterminatedBlock model := by
  rw [← map_eq_error (f := fun _ => ()), ofText_outcome, bind_eq_error]
  refine or_congr_right ⟨?_, ?_⟩
  · rintro ⟨blocks, hblocks, hended⟩
    cases blocks with
    | nil => cases hended
    | cons model outer =>
      cases hended
      exact ⟨model, outer, hblocks, rfl⟩
  · rintro ⟨model, outer, hblocks, rfl⟩
    exact ⟨_, hblocks, rfl⟩

theorem ofText_eq_unterminated_iff {model : String} :
    ofText s text = .error (.unterminatedBlock model) ↔
      ∃ outer, s.blocksAfter (Text.numberedLines text.toList) = .ok (model :: outer) := by
  rw [ofText_eq_error_iff]
  constructor
  · rintro (h | ⟨model, outer, h, he⟩)
    · exact absurd h (Schema.blocksAfter_ne_unterminated _ _)
    · cases he
      exact ⟨outer, h⟩
  · rintro ⟨outer, h⟩
    exact .inr ⟨model, outer, h, rfl⟩

/-- some lines with a closing brace -/
def closings : Nat → String
  | 0 => ""
  | d + 1 => "\n\x7d" ++ closings d

theorem splitLines_closings (cs : List Char) (d : Nat) :
    Text.splitLines (cs ++ (closings d).toList) =
      Text.splitLines cs ++ List.replicate d ['}'] := by
  induction d generalizing cs with
  | zero =>
    show Text.splitLines (cs ++ []) = Text.splitLines cs ++ []
    rw [List.append_nil, List.append_nil]
  | succ d ih =>
    have hclosings : (closings (d + 1)).toList = '\n' :: (['}'] ++ (closings d).toList) :=
      String.toList_append
    rw [hclosings, Text.splitLines_append_newline, ih ['}']]
    rfl

theorem numberedLines_closings (d : Nat) :
    Text.numberedLines (text ++ closings d).toList = Text.numberedLines text.toList ++
      Text.numberFrom (1 + (Text.splitLines text.toList).length) (List.replicate d ['}']) := by
  rw [Text.numberedLines, String.toList_append, splitLines_closings, Text.numberFrom_append]
  rfl

theorem numberedLines_newline (rest : String) :
    Text.numberedLines (text ++ "\n" ++ rest).toList = Text.numberedLines text.toList ++
      Text.numberFrom (1 + (Text.splitLines text.toList).length)
        (Text.splitLines rest.toList) := by
  have htext : (text ++ "\n" ++ rest).toList = text.toList ++ '\n' :: rest.toList := by
    rw [String.toList_append, String.toList_append, List.append_assoc]
    rfl
  rw [Text.numberedLines, htext, Text.splitLines_append_newline, Text.numberFrom_append]
  rfl

/-- lines that close blocks make a query of a text just where the text is one but for the end of as
many blocks -/
theorem exists_ofText_closings_iff {d : Nat} (hd : 1 ≤ d) :
    (∃ q, ofText s (text ++ closings d) = .ok q) ↔
      ∃ blocks, s.blocksAfter (Text.numberedLines text.toList) = .ok blocks ∧
        blocks.length = d := by
  rw [exists_ofText_iff, numberedLines_closings]
  by_cases hlines : Text.numberedLines text.toList = []
  · rw [hlines, List.nil_append]
    obtain ⟨d, rfl⟩ := Nat.exists_eq_add_of_le' hd
    exact ⟨nofun, fun h => nomatch h.choose_spec.1⟩
  · rw [Schema.blocksAfter_append hlines, bind_eq_ok]
    exact exists_congr fun blocks => and_congr_right fun _ => Schema.advanceAll_closes blocks _ d

theorem ofText_newline_of_error {e : Error}
    (h : s.blocksAfter (Text.numberedLines text.toList) = .error e)
    (hend : ∀ expected, e ≠ .unexpectedEnd expected) (rest : String) :
    ofText s (text ++ "\n" ++ rest) = .error e := by
  have hlines : Text.numberedLines text.toList ≠ [] := by
    intro hnil
    rw [hnil] at h
    cases h
    exact hend _ rfl
  rw [ofText_eq_error_iff, numberedLines_newline, Schema.blocksAfter_append hlines, h]
  exact .inl rfl

end Query

/-- lines that are added to a text do not change its error, unless the text just ends too early;
and a text that ends in an open block is a query if some lines close the blocks that are open -/
theorem Query.ofText_extended (s : Schema) (text : String) :
    (∀ e, ofText s text = .error e → (∀ model, e ≠ .unterminatedBlock model) →
      (∀ expected, e ≠ .unexpectedEnd expected) →
        ∀ rest, ofText s (text ++ "\n" ++ rest) = .error e) ∧
    ((∃ model, ofText s text = .error (.unterminatedBlock model)) ↔
      ∃ d, 1 ≤ d ∧ ∃ q, ofText s (text ++ closings d) = .ok q) := by
  constructor
  · intro e h hopen hend rest
    rcases ofText_eq_error_iff.mp h with h | ⟨model, -, -, he⟩
    · exact ofText_newline_of_error h hend rest
    · exact absurd he (hopen model)
  · constructor
    · rintro ⟨model, h⟩
      obtain ⟨outer, hblocks⟩ := ofText_eq_unterminated_iff.mp h
      have hd : 1 ≤ (model :: outer).length := Nat.succ_pos _
      exact ⟨_, hd, (exists_ofText_closings_iff hd).mpr ⟨_, hblocks, rfl⟩⟩
    · rintro ⟨d, hd, h⟩
      obtain ⟨blocks, hblocks, rfl⟩ := (exists_ofText_closings_iff hd).mp h
      obtain ⟨model, outer, rfl⟩ := List.exists_cons_of_length_pos hd
      exact ⟨model, ofText_eq_unterminated_iff.mpr ⟨outer, hblocks⟩⟩

namespace Samples

/-- a name that no relationship has, and a brace too many after it -/
def misnamed : String := "query Sample \x7b\n tubs \x7b\n \x7d\n\x7d\n\x7d"

/-- two open blocks -/
def unfinished : String := "query Sample \x7b\n tubes \x7b\n  type"

theorem ofText_extended_samples :
    (Query.ofText schema misnamed = .error (.unknownRelationship "Sample" "tubs") ∧
      ∀ rest, Query.ofText schema (misnamed ++ "\n" ++ rest) =
        .error (.unknownRelationship "Sample" "tubs")) ∧
    Query.ofText schema unfinished = .error (.unterminatedBlock "Tube") ∧
      ∃ d, 1 ≤ d ∧ ∃ q, Query.ofText schema (unfinished ++ Query.closings d) = .ok q := by
  have hmisnamed : Query.ofText schema misnamed =
      .error (.unknownRelationship "Sample" "tubs") := by cbv
  have hunfinished : Query.ofText schema unfinished = .error (.unterminatedBlock "Tube") := by cbv
  refine ⟨⟨hmisnamed, (Query.ofText_extended schema misnamed).1 _ hmisnamed ?_ ?_⟩,
    hunfinished, (Query.ofText_extended schema unfinished).2.mp ⟨_, hunfinished⟩⟩
  · intro model h
    cases h
  · intro expected h
    cases h

end Samples

/-! ## what is not expected -/

/-- only white space is too little for the start of a query -/
theorem Query.exists_unexpectedEnd_iff {s : Schema} {text : String} :
    (∃ expected, ofText s text = .error (.unexpectedEnd expected)) ↔
      ∀ line ∈ Text.splitLines text.toList, ∀ c ∈ line, Text.isBlank c = true := by
  rw [← Text.numberFrom_eq_nil_iff (n := 1)]
  constructor
  · rintro ⟨expected, h⟩
    rcases ofText_eq_error_iff.mp h with h | ⟨model, outer, -, he⟩
    · rcases Schema.blocksAfter_eq_error h with ⟨hlines, -⟩ | he | he
      · exact hlines
      · cases he
      · cases he
    · cases he
  · intro hlines
    refine ⟨.rootOpen, ofText_eq_error_iff.mpr (.inl ?_)⟩
    rw [Text.numberedLines, hlines]
    rfl

/-- a token that is not expected is the first of a line.  Either the line would open a query, and
what is before it ends in an open block, or what is before it is a query; and a text ends too early
just when it has no line that is not blank -/
theorem Query.ofText_unexpected (s : Schema) (text : String) :
    (∀ found expected, ofText s text = .error (.unexpectedToken found expected) →
      ∃ before after line rest tail,
        text.toList = before ++ '\n' :: after ∧ Text.splitLines after = line :: rest ∧
        found.line = (Text.splitLines before).length + 1 ∧
        lineTokens found.line (Text.trimmed line) = .ok (found.token :: tail) ∧
        found.token.startsLine = true ∧
        ((expected = .member ∧ (∃ model, found.token = .rootOpen model) ∧
            ∃ model, ofText s (String.ofList before) = .error (.unterminatedBlock model)) ∨
          (expected = .endOfQuery ∧ ∃ q, ofText s (String.ofList before) = .ok q))) ∧
    ((∃ expected, ofText s text = .error (.unexpectedEnd expected)) ↔
      ∀ line ∈ Text.splitLines text.toList, ∀ c ∈ line, Text.isBlank c = true) := by
  refine ⟨fun found expected h => ?_, exists_unexpectedEnd_iff⟩
  have hblocks : s.blocksAfter (Text.numberedLines text.toList) =
      .error (.unexpectedToken found expected) := by
    rcases ofText_eq_error_iff.mp h with h | ⟨model, outer, -, he⟩
    · exact h
    · cases he
  rcases Schema.blocksAfter_eq_error hblocks with ⟨-, he⟩ | he | he
  · cases he
  · cases he
  cases he with
  | intro hlines hbefore hts ht hm =>
    have hne := Schema.ne_nil_of_blocksAfter hbefore
    obtain ⟨a, b, line, rest, htext, hb, ha, hn, rfl⟩ :=
      Text.numberedLines_eq_append hne hlines
    have hfirst : Text.numberedLines (String.ofList a).toList = _ :=
      (congrArg Text.numberedLines String.toList_ofList).trans ha
    rw [← hfirst] at hbefore
    refine ⟨a, b, line, rest, _, htext, hb, hn, hts, ht, ?_⟩
    cases hm with
    | afterQuery => exact .inr ⟨rfl, exists_ofText_iff.mpr hbefore⟩
    | innerRoot model outer name =>
      exact .inl ⟨rfl, ⟨name, rfl⟩, model, ofText_eq_unterminated_iff.mpr ⟨outer, hbefore⟩⟩

namespace Samples

/-- a block that is opened like a query -/
def nested : String := "query Sample \x7b\n id\n query Tube \x7b\n \x7d\n\x7d"

theorem ofText_unexpected_samples :
    Query.ofText schema nested = .error (.unexpectedToken ⟨3, .rootOpen "Tube"⟩ .member) ∧
      ∃ before after line rest tail,
        nested.toList = before ++ '\n' :: after ∧ Text.splitLines after = line :: rest ∧
        3 = (Text.splitLines before).length + 1 ∧
        lineTokens 3 (Text.trimmed line) = .ok (.rootOpen "Tube" :: tail) ∧
        ∃ model,
          Query.ofText schema (String.ofList before) = .error (.unterminatedBlock model) := by
  have hnested : Query.ofText schema nested =
      .error (.unexpectedToken ⟨3, .rootOpen "Tube"⟩ .member) := by cbv
  obtain ⟨before, after, line, rest, tail, htext, hafter, hline, hts, -, hcases⟩ :=
    (Query.ofText_unexpected schema nested).1 _ _ hnested
  refine ⟨hnested, before, after, line, rest, tail, htext, hafter, hline, hts, ?_⟩
  rcases hcases with ⟨-, -, hopen⟩ | ⟨he, -⟩
  · exact hopen
  · cases he

end Samples

end NestedQuery
