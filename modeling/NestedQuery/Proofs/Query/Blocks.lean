import NestedQuery.Proofs.Query.Filter.Language
import NestedQuery.Proofs.Query.Parsing

/-!
# Reading a query line by line

Whether a text is read, and what is wrong with it otherwise, is decided line by line: a line opens
a block, closes one or names an attribute, and all that has to be kept from the lines before it is
which blocks are open.

* `Schema.advance`            the open blocks after one line more;
* `Schema.blocksAfter`        the open blocks after the first lines of a text;
* `Token.OnLine`              the tokens of a line, of which only the first starts a member;
* `Schema.Agrees`             the reader and the line by line account on the lines of a block;
* `Query.ofText_outcome`      the reader succeeds and fails as the line by line account says.

The reader looks one token ahead, also over the end of a line.  It never looks beyond a token that
is at fault, which is why the account by lines gives the same error.
-/

namespace NestedQuery

/-- the models of the open blocks, of the innermost one first -/
abbrev Blocks := List String

/-! ## one line after the other -/

namespace Schema
variable (s : Schema)

/-- the block that a relationship opens, whose class may be on the line -/
def opened (model name : String) : List Token → Except Error String
  | .cast cast :: _ => (s.relationshipOf model name).bind fun r =>
      (Parse.checkCast s r model cast).map fun _ => cast
  | _ => (s.relationshipOf model name).map (·.target)

/-- the open blocks after a line with some tokens -/
def advance (n : Nat) : Blocks → List Token → Except Error Blocks
  | blocks, [] => .ok blocks
  | [], t :: _ => .error (.unexpectedToken ⟨n, t⟩ .endOfQuery)
  | model :: outer, t :: rest =>
    match t with
    | .close => .ok outer
    | .attr name => (s.attributeOf model name).map fun _ => model :: outer
    | .relationshipOpen name => (s.opened model name rest).map (· :: model :: outer)
    | _ => .error (.unexpectedToken ⟨n, t⟩ .member)

def advanceAll (blocks : Blocks) : List (Nat × List Char) → Except Error Blocks
  | [] => .ok blocks
  | (n, line) :: rest =>
    (lineTokens n line).bind fun tokens =>
      (s.advance n blocks tokens).bind fun blocks => advanceAll blocks rest

/-- the open blocks after the lines of a text, the first of which opens the query -/
def blocksAfter : List (Nat × List Char) → Except Error Blocks
  | [] => .error (.unexpectedEnd .rootOpen)
  | (n, first) :: rest =>
    match Line.rootOpen? first with
    | none => .error (.missingRoot n (String.ofList first))
    | some model => (s.modelNamed model).bind fun _ => s.advanceAll [model] rest

/-- at the end of a text no block may be open -/
def ended : Blocks → Except Error Unit
  | [] => .ok ()
  | model :: _ => .error (.unterminatedBlock model)

/-- what becomes of some open blocks up to the end of a text -/
def toEnd (blocks : Blocks) (lines : List (Nat × List Char)) : Except Error Unit :=
  (s.advanceAll blocks lines).bind ended

theorem opened_nil (model name : String) :
    s.opened model name [] = (s.relationshipOf model name).map (·.target) := rfl

theorem opened_cast (model name cast : String) (ts : List Token) :
    s.opened model name (.cast cast :: ts) = (s.relationshipOf model name).bind fun r =>
      (Parse.checkCast s r model cast).map fun _ => cast := rfl

theorem advanceAll_cons (blocks : Blocks) (n : Nat) (line : List Char)
    (rest : List (Nat × List Char)) :
    s.advanceAll blocks ((n, line) :: rest) = (lineTokens n line).bind fun tokens =>
      (s.advance n blocks tokens).bind fun blocks => s.advanceAll blocks rest := rfl

end Schema

/-! ## the tokens of a line -/

/-- the tokens that a line may have -/
inductive Token.OnLine : List Token → Prop
  | rootOpen (model : String) : OnLine [.rootOpen model]
  | opening (name : String) : OnLine [.relationshipOpen name]
  | casting (name cast : String) : OnLine [.relationshipOpen name, .cast cast]
  | close : OnLine [.close]
  | «attribute» (name : String) {ts : List Token} {f : Option Filter} (h : Filter.Group ts f) :
      OnLine (.attr name :: ts)

/-- whether a token is the first one of its line -/
def Token.startsLine : Token → Bool
  | .rootOpen _ | .relationshipOpen _ | .close | .attr _ => true
  | _ => false

theorem onLine_of_lineTokens {n : Nat} {line : List Char} {ts : List Token}
    (h : lineTokens n line = .ok ts) : Token.OnLine ts := by
  unfold lineTokens at h
  split at h
  · cases h
  · cases h
    exact .rootOpen _
  · cases h
    exact .opening _
  · cases h
    exact .casting _ _
  · cases h
    exact .close
  · rename_i name filter _
    unfold attributeTokens at h
    split at h
    · cases h
      exact .attribute name .none
    · split at h
      · rename_i tokens htokens
        cases h
        obtain ⟨f, hf⟩ := Filter.group_of_tokens htokens
        exact .attribute name hf
      · cases h

theorem Token.OnLine.exists_cons {ts : List Token} (h : OnLine ts) :
    ∃ t rest, ts = t :: rest ∧ t.startsLine = true := by
  cases h <;> exact ⟨_, _, rfl, rfl⟩

/-! ## the reader, member by member -/

namespace Parse
variable (s : Schema) (model : String)

/-- the members of a block, and the stream after it -/
def readBlock (ts : TokenStream) : Except Error (List Member × TokenStream) :=
  (body s model ts).map fun (members, rest) => (members, rest.1)

/-- an attribute with its filter, and the stream after it -/
def readAttribute (name : String) (ts : TokenStream) :
    Except Error (Attribute × Option Filter × TokenStream) :=
  (s.attributeOf model name).bind fun a => (filter ts).map fun (f, rest) => (a, f, rest.1)

/-- a relationship with the model of its block, and the stream in the block -/
def readOpening (name : String) (ts : TokenStream) :
    Except Error (Relationship × String × TokenStream) :=
  (s.relationshipOf model name).bind fun r =>
    (blockModel s r model ts).map fun (block, rest) => (r, block, rest.1)

theorem readBlock_nil : readBlock s model [] = .error (.unterminatedBlock model) := by
  rw [readBlock, body]
  rfl

theorem readBlock_error (e : Error) (ts : TokenStream) :
    readBlock s model (.error e :: ts) = .error e := by
  rw [readBlock, body]
  rfl

theorem readBlock_close (n : Nat) (ts : TokenStream) :
    readBlock s model (.ok ⟨n, .close⟩ :: ts) = .ok ([], ts) := by
  rw [readBlock, body]
  rfl

theorem readBlock_rootOpen (n : Nat) (name : String) (ts : TokenStream) :
    readBlock s model (.ok ⟨n, .rootOpen name⟩ :: ts) =
      .error (.unexpectedToken ⟨n, .rootOpen name⟩ .member) := by
  rw [readBlock, body]
  rfl

theorem readBlock_attr (n : Nat) (name : String) (ts : TokenStream) :
    readBlock s model (.ok ⟨n, .attr name⟩ :: ts) =
      (readAttribute s model name ts).bind fun (a, f, rest) =>
        (readBlock s model rest).map fun (members, rest) =>
          (.attribute a f :: members, rest) := by
  rw [readBlock, body, readAttribute]
  dsimp only
  cases s.attributeOf model name with
  | error e => rfl
  | ok a =>
    show Except.map _ ((filter ts).bind _) = Except.bind ((filter ts).map _) _
    cases filter ts with
    | error e => rfl
    | ok found =>
      show Except.map _ ((body s model found.2.1).map _) = (readBlock s model found.2.1).map _
      rw [readBlock]
      cases body s model found.2.1 <;> rfl

theorem readBlock_opening (n : Nat) (name : String) (ts : TokenStream) :
    readBlock s model (.ok ⟨n, .relationshipOpen name⟩ :: ts) =
      (readOpening s model name ts).bind fun (r, block, rest) =>
        (readBlock s block rest).bind fun (children, rest) =>
          (readBlock s model rest).map fun (members, rest) =>
            (.relationship r block children :: members, rest) := by
  rw [readBlock, body, readOpening]
  dsimp only
  cases s.relationshipOf model name with
  | error e => rfl
  | ok r =>
    show Except.map _ ((blockModel s r model ts).bind _) = Except.bind (Except.map _ _) _
    cases blockModel s r model ts with
    | error e => rfl
    | ok found =>
      show Except.map _ ((body s found.1 found.2.1).bind _) = (readBlock s found.1 found.2.1).bind _
      rw [readBlock]
      cases body s found.1 found.2.1 with
      | error e => rfl
      | ok inner =>
        show Except.map _ ((body s model inner.2.1).map _) = (readBlock s model inner.2.1).map _
        rw [readBlock]
        cases body s model inner.2.1 <;> rfl

end Parse

/-! ## looking ahead -/

/-- a stream that is at the start of a line, or at its end -/
inductive LineStart : TokenStream → Prop
  | nil : LineStart []
  | cons {t : Located} (ht : t.token.startsLine = true) (rest : TokenStream) :
      LineStart (.ok t :: rest)

theorem Parse.filter_of_lineStart {ts : TokenStream} (h : LineStart ts) :
    filter ts = .ok (none, ⟨ts, Nat.le_refl _⟩) := by
  cases h with
  | nil => rfl
  | @cons t ht rest =>
    obtain ⟨n, t⟩ := t
    cases t <;> first | rfl | cases ht

theorem Parse.blockModel_of_lineStart (s : Schema) {ts : TokenStream} (h : LineStart ts)
    (r : Relationship) (model : String) :
    blockModel s r model ts = .ok (r.target, ⟨ts, Nat.le_refl _⟩) := by
  cases h with
  | nil => rfl
  | @cons t ht rest =>
    obtain ⟨n, t⟩ := t
    cases t <;> first | rfl | cases ht

namespace Schema
variable {s : Schema} {n : Nat} {text : List Char} {ts : List Token}
  {lines : List (Nat × List Char)}

theorem toEnd_cons {blocks blocks' : Blocks} (hts : lineTokens n text = .ok ts)
    (h : s.advance n blocks ts = .ok blocks') :
    s.toEnd blocks ((n, text) :: lines) = s.toEnd blocks' lines := by
  rw [toEnd, advanceAll_cons, hts, bind_ok, h]
  rfl

theorem toEnd_cons_error {blocks : Blocks} {e : Error} (hts : lineTokens n text = .ok ts)
    (h : s.advance n blocks ts = .error e) :
    s.toEnd blocks ((n, text) :: lines) = .error e := by
  rw [toEnd, advanceAll_cons, hts, bind_ok, h]
  rfl

theorem toEnd_cons_stray {e : Error} (h : lineTokens n text = .error e) (blocks : Blocks) :
    s.toEnd blocks ((n, text) :: lines) = .error e := by
  rw [toEnd, advanceAll_cons, h]
  rfl

/-- lines start with a token, or with an error, which they have wherever they stand -/
theorem lineStart_or_error (s : Schema) (lines : List (Nat × List Char)) :
    LineStart (tokensOfLines lines) ∨ ∃ e rest, tokensOfLines lines = .error e :: rest ∧
      ∀ blocks, s.toEnd blocks lines = .error e := by
  cases lines with
  | nil => exact .inl .nil
  | cons line lines =>
    obtain ⟨n, text⟩ := line
    rw [tokensOfLines_cons]
    cases hts : lineTokens n text with
    | error e => exact .inr ⟨e, [], rfl, toEnd_cons_stray hts⟩
    | ok ts =>
      obtain ⟨t, us, rfl, ht⟩ := (onLine_of_lineTokens hts).exists_cons
      exact .inl (.cons ht _)

section
variable {model name : String}

theorem toEnd_attr (hts : lineTokens n text = .ok (.attr name :: ts)) (outer : Blocks) :
    s.toEnd (model :: outer) ((n, text) :: lines) =
      (s.attributeOf model name).bind fun _ => s.toEnd (model :: outer) lines := by
  rw [toEnd, advanceAll_cons, hts, bind_ok]
  show (((s.attributeOf model name).map fun _ => model :: outer).bind _).bind _ = _
  cases s.attributeOf model name <;> rfl

theorem toEnd_opening (hts : lineTokens n text = .ok (.relationshipOpen name :: ts))
    (outer : Blocks) :
    s.toEnd (model :: outer) ((n, text) :: lines) =
      (s.opened model name ts).bind fun block => s.toEnd (block :: model :: outer) lines := by
  rw [toEnd, advanceAll_cons, hts, bind_ok]
  show (((s.opened model name ts).map (· :: model :: outer)).bind _).bind _ = _
  cases s.opened model name ts <;> rfl

/-- the filter of an attribute is read up to the end of its line; only where there is none an error
of the next line is seen, which is the one that comes next anyhow -/
theorem readAttribute_of_line (s : Schema) (model : String) (lines : List (Nat × List Char))
    (hts : lineTokens n text = .ok (.attr name :: ts)) {f : Option Filter}
    (hf : Filter.Group ts f) :
    (∃ e, Parse.readAttribute s model name (followed n (.ok ts) (tokensOfLines lines)) = .error e ∧
        ∀ outer, s.toEnd (model :: outer) ((n, text) :: lines) = .error e) ∨
      ∃ a, Parse.readAttribute s model name (followed n (.ok ts) (tokensOfLines lines)) =
          .ok (a, f, tokensOfLines lines) ∧
        ∀ outer, s.toEnd (model :: outer) ((n, text) :: lines) =
          s.toEnd (model :: outer) lines := by
  have hline : ∀ outer, s.toEnd (model :: outer) ((n, text) :: lines) =
      (s.attributeOf model name).bind fun _ => s.toEnd (model :: outer) lines := toEnd_attr hts
  rw [Parse.readAttribute]
  cases ha : s.attributeOf model name with
  | error e =>
    rw [ha] at hline
    exact .inl ⟨e, rfl, hline⟩
  | ok a =>
    rw [ha] at hline
    have hb := Parse.between_followed n ts (tokensOfLines lines)
    rw [bind_ok]
    cases hf with
    | some hd =>
      obtain ⟨h, hfilter⟩ := Parse.filter_of_brackets hd hb
      rw [hfilter]
      exact .inr ⟨a, rfl, hline⟩
    | none =>
      rw [Parse.between_nil_iff.mp hb]
      rcases lineStart_or_error s lines with hstart | ⟨e, rest, hlines, he⟩
      · rw [Parse.filter_of_lineStart hstart]
        exact .inr ⟨a, rfl, hline⟩
      · rw [hlines]
        exact .inl ⟨e, rfl, fun outer => (hline outer).trans (he _)⟩

/-- the class of a block is on the line that opens it; only where there is none an error of the next
line is seen -/
theorem readOpening_of_line (s : Schema) (model : String) (lines : List (Nat × List Char))
    (hts : lineTokens n text = .ok (.relationshipOpen name :: ts)) :
    (∃ e, Parse.readOpening s model name (followed n (.ok ts) (tokensOfLines lines)) = .error e ∧
        ∀ outer, s.toEnd (model :: outer) ((n, text) :: lines) = .error e) ∨
      ∃ r block, Parse.readOpening s model name (followed n (.ok ts) (tokensOfLines lines)) =
          .ok (r, block, tokensOfLines lines) ∧
        ∀ outer, s.toEnd (model :: outer) ((n, text) :: lines) =
          s.toEnd (block :: model :: outer) lines := by
  have hline : ∀ outer, s.toEnd (model :: outer) ((n, text) :: lines) =
      (s.opened model name ts).bind fun block => s.toEnd (block :: model :: outer) lines :=
    toEnd_opening hts
  rw [Parse.readOpening]
  cases onLine_of_lineTokens hts with
  | opening =>
    have hnil : followed n (.ok []) (tokensOfLines lines) = tokensOfLines lines := rfl
    rw [opened_nil] at hline
    cases hr : s.relationshipOf model name with
    | error e =>
      rw [hr] at hline
      exact .inl ⟨e, rfl, hline⟩
    | ok r =>
      rw [hr] at hline
      rw [bind_ok, hnil]
      rcases lineStart_or_error s lines with hstart | ⟨e, rest, hlines, he⟩
      · rw [Parse.blockModel_of_lineStart s hstart]
        exact .inr ⟨r, r.target, rfl, hline⟩
      · rw [hlines]
        exact .inl ⟨e, rfl, fun outer => (hline outer).trans (he _)⟩
  | casting name cast =>
    have hcast : followed n (.ok [.cast cast]) (tokensOfLines lines) =
        .ok ⟨n, .cast cast⟩ :: tokensOfLines lines := rfl
    rw [opened_cast] at hline
    cases hr : s.relationshipOf model name with
    | error e =>
      rw [hr] at hline
      exact .inl ⟨e, rfl, hline⟩
    | ok r =>
      rw [hr, bind_ok] at hline
      rw [bind_ok, hcast, Parse.blockModel]
      dsimp only
      cases hc : Parse.checkCast s r model cast with
      | error e =>
        rw [hc] at hline
        exact .inl ⟨e, rfl, hline⟩
      | ok u =>
        rw [hc] at hline
        exact .inr ⟨r, cast, rfl, hline⟩

end

/-! ## the reader agrees -/

/-- a block is read from its lines as they are gone through one by one, whatever blocks are around
it -/
inductive Agrees (s : Schema) (model : String) (lines : List (Nat × List Char)) : Prop
  | fails (e : Error) (hread : Parse.readBlock s model (tokensOfLines lines) = .error e)
      (hend : ∀ outer, s.toEnd (model :: outer) lines = .error e)
  | closes (members : List Member) (rest : List (Nat × List Char))
      (hread : Parse.readBlock s model (tokensOfLines lines) = .ok (members, tokensOfLines rest))
      (hlt : rest.length < lines.length)
      (hend : ∀ outer, s.toEnd (model :: outer) lines = s.toEnd outer rest)

section
variable {model name : String}

theorem agrees_attr (hts : lineTokens n text = .ok (.attr name :: ts)) {f : Option Filter}
    (hf : Filter.Group ts f) (hrest : s.Agrees model lines) :
    s.Agrees model ((n, text) :: lines) := by
  have hread : Parse.readBlock s model (tokensOfLines ((n, text) :: lines)) =
      (Parse.readAttribute s model name (followed n (.ok ts) (tokensOfLines lines))).bind
        fun (a, f, rest) => (Parse.readBlock s model rest).map fun (members, rest) =>
          (.attribute a f :: members, rest) := by
    rw [tokensOfLines_cons, hts]
    exact Parse.readBlock_attr s model n name _
  rcases readAttribute_of_line s model lines hts hf with ⟨e, ha, he⟩ | ⟨a, ha, hgoes⟩
  · exact .fails e (by rw [hread, ha]; rfl) he
  · have hgoes' : Parse.readBlock s model (tokensOfLines ((n, text) :: lines)) =
        (Parse.readBlock s model (tokensOfLines lines)).map fun (members, rest) =>
          (.attribute a f :: members, rest) := by
      rw [hread, ha]
      rfl
    cases hrest with
    | fails e hr he =>
      exact .fails e (by rw [hgoes', hr]; rfl) fun outer => (hgoes outer).trans (he outer)
    | closes members rest hr hlt he =>
      exact .closes _ rest (by rw [hgoes', hr]; rfl) (Nat.lt_succ_of_lt hlt)
        fun outer => (hgoes outer).trans (he outer)

/-- an inner block is read, and then the block that it is in goes on; both have fewer lines -/
theorem agrees_opening (hts : lineTokens n text = .ok (.relationshipOpen name :: ts))
    (hrest : ∀ model lines', lines'.length ≤ lines.length → s.Agrees model lines') :
    s.Agrees model ((n, text) :: lines) := by
  have hread : Parse.readBlock s model (tokensOfLines ((n, text) :: lines)) =
      (Parse.readOpening s model name (followed n (.ok ts) (tokensOfLines lines))).bind
        fun (r, block, rest) => (Parse.readBlock s block rest).bind fun (children, rest) =>
          (Parse.readBlock s model rest).map fun (members, rest) =>
            (.relationship r block children :: members, rest) := by
    rw [tokensOfLines_cons, hts]
    exact Parse.readBlock_opening s model n name _
  rcases readOpening_of_line s model lines hts with ⟨e, ho, he⟩ | ⟨r, block, ho, hopens⟩
  · exact .fails e (by rw [hread, ho]; rfl) he
  cases hrest block lines (Nat.le_refl _) with
  | fails e hr he =>
    have hinner : Parse.readBlock s model (tokensOfLines ((n, text) :: lines)) = .error e := by
      rw [hread, ho, bind_ok]
      dsimp only
      rw [hr]
      rfl
    exact .fails e hinner fun outer => (hopens outer).trans (he _)
  | closes children rest hr hlt hinner =>
    have hgoes : ∀ outer, s.toEnd (model :: outer) ((n, text) :: lines) =
        s.toEnd (model :: outer) rest := fun outer => (hopens outer).trans (hinner _)
    have hgoes' : Parse.readBlock s model (tokensOfLines ((n, text) :: lines)) =
        (Parse.readBlock s model (tokensOfLines rest)).map fun (members, rest) =>
          (.relationship r block children :: members, rest) := by
      rw [hread, ho, bind_ok]
      dsimp only
      rw [hr]
      rfl
    cases hrest model rest (Nat.le_of_lt hlt) with
    | fails e hr' he =>
      exact .fails e (by rw [hgoes', hr']; rfl) fun outer => (hgoes outer).trans (he outer)
    | closes members rest' hr' hlt' he =>
      exact .closes _ rest' (by rw [hgoes', hr']; rfl) (Nat.lt_succ_of_lt (Nat.lt_trans hlt' hlt))
        fun outer => (hgoes outer).trans (he outer)

end

/-- the induction is on the number of lines, since a block goes on where an inner one ends -/
theorem agrees (s : Schema) (model : String) (lines : List (Nat × List Char)) :
    s.Agrees model lines := by
  obtain ⟨k, hk⟩ : ∃ k, lines.length = k := ⟨_, rfl⟩
  induction k using Nat.strongRecOn generalizing model lines with
  | ind k ih =>
    subst hk
    cases lines with
    | nil => exact .fails _ (Parse.readBlock_nil s model) fun _ => rfl
    | cons line lines =>
      obtain ⟨n, text⟩ := line
      have hlt : lines.length < ((n, text) :: lines).length := Nat.lt_succ_self _
      cases hts : lineTokens n text with
      | error e =>
        refine .fails e ?_ fun outer => toEnd_cons_stray hts _
        rw [tokensOfLines_cons, hts]
        exact Parse.readBlock_error s model e []
      | ok ts =>
        cases onLine_of_lineTokens hts with
        | rootOpen name =>
          refine .fails _ ?_ fun outer => toEnd_cons_error hts rfl
          rw [tokensOfLines_cons, hts]
          exact Parse.readBlock_rootOpen s model n name _
        | close =>
          refine .closes [] lines ?_ hlt fun outer => toEnd_cons hts rfl
          rw [tokensOfLines_cons, hts]
          exact Parse.readBlock_close s model n _
        | opening | casting =>
          exact agrees_opening hts fun model lines' h => ih _ (Nat.lt_of_le_of_lt h hlt) model _ rfl
        | «attribute» name hf => exact agrees_attr hts hf (ih _ hlt model lines rfl)

/-- after the query no line may follow -/
theorem finish_of_lines (s : Schema) (lines : List (Nat × List Char)) :
    Parse.finish (tokensOfLines lines) = s.toEnd [] lines := by
  cases lines with
  | nil => rfl
  | cons line lines =>
    obtain ⟨n, text⟩ := line
    rw [tokensOfLines_cons]
    cases hts : lineTokens n text with
    | error e => exact (toEnd_cons_stray hts []).symm
    | ok ts =>
      obtain ⟨t, us, rfl, -⟩ := (onLine_of_lineTokens hts).exists_cons
      exact (toEnd_cons_error hts rfl).symm

end Schema

/-- a text is read exactly as its lines are gone through one by one -/
theorem Query.ofText_outcome (s : Schema) (text : String) :
    (ofText s text).map (fun _ => ()) =
      (s.blocksAfter (Text.numberedLines text.toList)).bind Schema.ended := by
  rw [ofText, tokenize]
  cases Text.numberedLines text.toList with
  | nil => rfl
  | cons line lines =>
    obtain ⟨n, first⟩ := line
    dsimp only [Schema.blocksAfter, rootTokens]
    cases Line.rootOpen? first with
    | none => rfl
    | some model =>
      have hread : ofTokens s (followed n (.ok [.rootOpen model]) (tokensOfLines lines)) =
          (s.modelNamed model).bind fun _ =>
            (Parse.readBlock s model (tokensOfLines lines)).bind fun (children, rest) =>
              (Parse.finish rest).map fun _ => ⟨model, children⟩ := by
        have htokens : followed n (.ok [.rootOpen model]) (tokensOfLines lines) =
            .ok ⟨n, .rootOpen model⟩ :: tokensOfLines lines := rfl
        rw [htokens, Parse.readBlock]
        show (s.modelNamed model).bind (fun _ => (Parse.body s model _).bind _) = _
        cases Parse.body s model (tokensOfLines lines) <;> rfl
      dsimp only
      rw [hread]
      cases s.modelNamed model with
      | error e => rfl
      | ok m =>
        show Except.map _ (Except.bind _ _) = s.toEnd [model] lines
        cases s.agrees model lines with
        | fails e hr he => rw [hr, he]; rfl
        | closes members rest hr hlt he =>
          rw [bind_ok, hr, he, bind_ok, ← Schema.finish_of_lines s]
          dsimp only
          generalize Parse.finish (tokensOfLines rest) = done
          cases done <;> rfl

end NestedQuery
