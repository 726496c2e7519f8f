import Mathlib
import NestedQuery.Proofs.Outcome
import NestedQuery.Proofs.Query.Grammar
import NestedQuery.Query.Parse

/-!
# The reader accepts its grammar

A stream of tokens is read as a tree exactly when it holds no error and its tokens stand for that
tree by the grammar, so that there is one tree at most.

* `Parse.factor`               the first factor of an expression;
* `Parse.spells_of_expression`, `Parse.reads_of_derives`   expressions, in both directions;
* `Parse.derives_of_body`, `Parse.body_of_derives`         members of a block;
* `Query.ofTokens_eq_ok_iff`   whole queries, and chains of connectives.

Each direction goes with the rest of the stream in view: a part that is read is followed by the
rest, and tokens of a part are read whatever follows that cannot belong to them.
-/

namespace NestedQuery

/-- the tokens without their lines -/
def tokensOf (ls : List Located) : List Token := ls.map Located.token

/-- the stream of tokens without an error -/
def streamOf (ls : List Located) : TokenStream := ls.map Except.ok

theorem tokensOf_append (xs ys : List Located) :
    tokensOf (xs ++ ys) = tokensOf xs ++ tokensOf ys := List.map_append

theorem streamOf_append (xs ys : List Located) :
    streamOf (xs ++ ys) = streamOf xs ++ streamOf ys := List.map_append

namespace Parse

/-! ## parts of an expression -/

theorem length_lt_trans {ts r1 r2 r3 : TokenStream} (h3 : r3.length < r2.length)
    (h2 : r2.length < r1.length) (h1 : r1.length < ts.length) : r3.length < ts.length :=
  Nat.lt_trans h3 (Nat.lt_trans h2 h1)

/-- a term, or an expression in parentheses -/
def factor (ts : TokenStream) : Result Filter ts :=
  (next .term ts).bind fun (t, ⟨rest, h⟩) =>
    match t.token with
    | .term t => .ok (.term t, ⟨rest, h⟩)
    | .openParen =>
      (expression rest).bind fun (inner, ⟨r1, h1⟩) =>
        (closeParen r1).map fun ⟨r2, h2⟩ => (inner, ⟨r2, length_lt_trans h2 h1 h⟩)
    | _ => .error (.unexpectedToken t .termOrParen)

theorem expression_eq (ts : TokenStream) :
    expression ts = (factor ts).bind fun (left, ⟨r1, h1⟩) =>
      (connective? r1).bind fun
        | none => .ok (left, ⟨r1, h1⟩)
        | some (c, ⟨r2, h2⟩) =>
          (expression r2).map fun (right, ⟨r3, h3⟩) =>
            (.joined c left right, ⟨r3, length_lt_trans h3 h2 h1⟩) := by
  rw [expression, factor]
  cases next .term ts <;> rfl

theorem next_eq_ok {e : Expectation} {ts : TokenStream} {t : Located} {rest : Rest ts}
    (h : next e ts = .ok (t, rest)) : ts = .ok t :: rest.1 := by
  unfold next at h
  split at h
  · cases h
  · cases h
  · cases h
    rfl

theorem closeParen_eq_ok {ts : TokenStream} {rest : Rest ts} (h : closeParen ts = .ok rest) :
    ∃ n, ts = .ok ⟨n, .closeParen⟩ :: rest.1 := by
  obtain ⟨⟨⟨n, t⟩, r⟩, hn, h⟩ := bind_eq_ok.mp h
  dsimp only at h
  split at h
  · cases h
    exact ⟨n, next_eq_ok hn⟩
  · cases h

theorem filterEnd_eq_ok {ts : TokenStream} {rest : Rest ts} (h : filterEnd ts = .ok rest) :
    ∃ n, ts = .ok ⟨n, .filterEnd⟩ :: rest.1 := by
  obtain ⟨⟨⟨n, t⟩, r⟩, hn, h⟩ := bind_eq_ok.mp h
  dsimp only at h
  split at h
  · cases h
    exact ⟨n, next_eq_ok hn⟩
  · cases h

theorem connective?_eq_some {ts : TokenStream} {c : Connective} {rest : Rest ts}
    (h : connective? ts = .ok (some (c, rest))) :
    ∃ n, ts = .ok ⟨n, .connective c⟩ :: rest.1 := by
  unfold connective? at h
  split at h
  · cases h
  · cases h
  · rename_i t r
    obtain ⟨n, t⟩ := t
    dsimp only at h
    split at h
    · cases h
      exact ⟨n, rfl⟩
    · cases h

/-! ## what is read stands for the tree -/

/-- the tokens between a stream and a rest of it -/
def Between (ts rest : TokenStream) (tokens : List Token) : Prop :=
  ∃ ls, ts = streamOf ls ++ rest ∧ tokensOf ls = tokens

theorem between_nil_iff {ts rest : TokenStream} : Between ts rest [] ↔ ts = rest := by
  constructor
  · rintro ⟨ls, rfl, hls⟩
    rw [List.map_eq_nil_iff.mp hls]
    rfl
  · rintro rfl
    exact ⟨[], rfl, rfl⟩

theorem between_cons_iff {ts rest : TokenStream} {t : Token} {tokens : List Token} :
    Between ts rest (t :: tokens) ↔
      ∃ n mid, ts = .ok ⟨n, t⟩ :: mid ∧ Between mid rest tokens := by
  constructor
  · rintro ⟨ls, rfl, hls⟩
    obtain ⟨x, xs, rfl, rfl, hxs⟩ := List.map_eq_cons_iff.mp hls
    exact ⟨x.line, streamOf xs ++ rest, rfl, xs, rfl, hxs⟩
  · rintro ⟨n, mid, rfl, ls, rfl, rfl⟩
    exact ⟨⟨n, t⟩ :: ls, rfl, rfl⟩

theorem between_append_iff {ts rest : TokenStream} {xs ys : List Token} :
    Between ts rest (xs ++ ys) ↔ ∃ mid, Between ts mid xs ∧ Between mid rest ys := by
  constructor
  · rintro ⟨ls, rfl, hls⟩
    obtain ⟨a, b, rfl, rfl, hb⟩ := List.map_eq_append_iff.mp hls
    exact ⟨streamOf b ++ rest, ⟨a, by rw [streamOf_append, List.append_assoc], rfl⟩, b, rfl, hb⟩
  · rintro ⟨mid, ⟨a, rfl, rfl⟩, b, rfl, rfl⟩
    exact ⟨a ++ b, by rw [streamOf_append, List.append_assoc], tokensOf_append a b⟩

theorem Between.refl (ts : TokenStream) : Between ts ts [] := between_nil_iff.mpr rfl

theorem Between.cons {ts rest : TokenStream} {tokens : List Token} (h : Between ts rest tokens)
    (n : Nat) (t : Token) : Between (.ok ⟨n, t⟩ :: ts) rest (t :: tokens) :=
  between_cons_iff.mpr ⟨n, ts, rfl, h⟩

theorem Between.trans {ts mid rest : TokenStream} {xs ys : List Token}
    (h : Between ts mid xs) (h' : Between mid rest ys) : Between ts rest (xs ++ ys) :=
  between_append_iff.mpr ⟨mid, h, h'⟩

theorem between_followed (n : Nat) (tokens : List Token) (rest : TokenStream) :
    Between (followed n (.ok tokens) rest) rest tokens := by
  refine ⟨tokens.map (Located.mk n), ?_, ?_⟩
  · rw [followed, streamOf, List.map_map]
    rfl
  · rw [tokensOf, List.map_map]
    exact List.map_id _

/-- tokens between a stream and its rest that stand for a filter -/
def Spells (part : Filter.Part) (ts : TokenStream) (f : Filter) (rest : TokenStream) : Prop :=
  ∃ tokens, Between ts rest tokens ∧ Filter.Derives part tokens f

/-- a factor is what it is read as, if this holds of the shorter expressions in parentheses -/
theorem spells_of_factor {ts : TokenStream} {f : Filter} {rest : Rest ts}
    (hinner : ∀ (r : TokenStream) (f : Filter) (rest : Rest r), r.length < ts.length →
      expression r = .ok (f, rest) → Spells .expression r f rest.1)
    (h : factor ts = .ok (f, rest)) : Spells .factor ts f rest.1 := by
  obtain ⟨⟨⟨n, t⟩, r1, h1⟩, hnext, h⟩ := bind_eq_ok.mp h
  have hts := next_eq_ok hnext
  dsimp only at h hts
  split at h
  · rename_i u
    cases h
    exact ⟨_, hts ▸ (Between.refl _).cons n (.term u), .term u⟩
  · obtain ⟨⟨inner, r2, h2⟩, hexpr, h⟩ := bind_eq_ok.mp h
    obtain ⟨⟨r3, h3⟩, hclose, he⟩ := map_eq_ok.mp h
    cases he
    obtain ⟨tokens, hb, hd⟩ := hinner r1 inner ⟨r2, h2⟩ h1 hexpr
    obtain ⟨n', hr2⟩ := closeParen_eq_ok hclose
    dsimp only at hb hr2
    subst hr2
    exact ⟨_, hts ▸ (hb.trans ((Between.refl r3).cons n' .closeParen)).cons n .openParen,
      .paren hd⟩
  · cases h

/-- the induction is on the number of tokens, since both parts of a chain are shorter -/
theorem spells_of_expression {ts : TokenStream} {f : Filter} {rest : Rest ts}
    (h : expression ts = .ok (f, rest)) : Spells .expression ts f rest.1 := by
  obtain ⟨n, hn⟩ : ∃ n, ts.length = n := ⟨_, rfl⟩
  induction n using Nat.strongRecOn generalizing ts f with
  | ind n ih =>
    subst hn
    rw [expression_eq] at h
    obtain ⟨⟨left, r1, h1⟩, hleft, h⟩ := bind_eq_ok.mp h
    obtain ⟨xs, hxs, hdx⟩ :=
      spells_of_factor (fun r f rest hr h => ih _ hr h rfl) hleft
    obtain ⟨c, hc, h⟩ := bind_eq_ok.mp h
    cases c with
    | none =>
      cases h
      exact ⟨xs, hxs, .single hdx⟩
    | some link =>
      obtain ⟨c, r2, h2⟩ := link
      obtain ⟨⟨right, r3, h3⟩, hright, he⟩ := map_eq_ok.mp h
      cases he
      obtain ⟨ys, hys, hdy⟩ := ih _ (Nat.lt_trans h2 h1) hright rfl
      obtain ⟨n, hr1⟩ := connective?_eq_some hc
      dsimp only at hr1 hys
      subst hr1
      exact ⟨_, hxs.trans (hys.cons n (.connective c)), .joined c hdx hdy⟩

/-! ## tokens of the grammar are read -/

/-- a filter is read up to a rest that does not go on with a connective -/
def Reads (ts : TokenStream) (f : Filter) (rest : TokenStream) : Filter.Part → Prop
  | .factor => ∃ h, factor ts = .ok (f, ⟨rest, h⟩)
  | .expression => connective? rest = .ok none → ∃ h, expression ts = .ok (f, ⟨rest, h⟩)

theorem reads_of_derives {part : Filter.Part} {tokens : List Token} {f : Filter}
    (hd : Filter.Derives part tokens f) {ts rest : TokenStream} (hb : Between ts rest tokens) :
    Reads ts f rest part := by
  induction hd generalizing ts rest with
  | term t =>
    obtain ⟨n, mid, rfl, hmid⟩ := between_cons_iff.mp hb
    obtain rfl := between_nil_iff.mp hmid
    exact ⟨_, rfl⟩
  | paren _ ih =>
    obtain ⟨n, r1, rfl, hr1⟩ := between_cons_iff.mp hb
    obtain ⟨r2, hinner, hr2⟩ := between_append_iff.mp hr1
    obtain ⟨n', r3, rfl, hr3⟩ := between_cons_iff.mp hr2
    obtain rfl := between_nil_iff.mp hr3
    obtain ⟨h, he⟩ := ih hinner rfl
    show ∃ h, (expression r1).bind _ = _
    rw [he]
    exact ⟨_, rfl⟩
  | single _ ih =>
    intro hrest
    obtain ⟨h, he⟩ := ih hb
    rw [expression_eq, he, bind_ok]
    show ∃ h, (connective? rest).bind _ = _
    rw [hrest]
    exact ⟨h, rfl⟩
  | joined c _ _ ihl ihr =>
    intro hrest
    obtain ⟨r1, hleft, hr1⟩ := between_append_iff.mp hb
    obtain ⟨n, r2, rfl, hright⟩ := between_cons_iff.mp hr1
    obtain ⟨h, he⟩ := ihl hleft
    obtain ⟨h', he'⟩ := ihr hright hrest
    rw [expression_eq, he, bind_ok]
    show ∃ h, (expression r2).map _ = _
    rw [he']
    exact ⟨_, rfl⟩

/-! ## members -/

/-- a stream that goes on with a member or the end of a block -/
inductive MemberStart : TokenStream → Prop
  | close (n : Nat) (rest : TokenStream) : MemberStart (.ok ⟨n, .close⟩ :: rest)
  | attr (n : Nat) (name : String) (rest : TokenStream) : MemberStart (.ok ⟨n, .attr name⟩ :: rest)
  | block (n : Nat) (name : String) (rest : TokenStream) :
      MemberStart (.ok ⟨n, .relationshipOpen name⟩ :: rest)

theorem memberStart_of_derives {s : Schema} {model : String} {tokens : List Token}
    {members : List Member} (hd : s.Derives model tokens members) {ts rest : TokenStream}
    (hb : Between ts rest (tokens ++ [.close])) : MemberStart ts := by
  cases hd with
  | nil =>
    obtain ⟨n, mid, rfl, -⟩ := between_cons_iff.mp hb
    exact .close n mid
  | attr _ _ _ =>
    obtain ⟨n, mid, rfl, -⟩ := between_cons_iff.mp hb
    exact .attr n _ mid
  | block _ _ _ _ =>
    obtain ⟨n, mid, rfl, -⟩ := between_cons_iff.mp hb
    exact .block n _ mid

theorem group_of_filter {ts : TokenStream} {f : Option Filter} {rest : Tail ts}
    (h : filter ts = .ok (f, rest)) :
    ∃ tokens, Between ts rest.1 tokens ∧ Filter.Group tokens f := by
  unfold filter at h
  split at h
  · cases h
    exact ⟨_, .refl _, .none⟩
  · cases h
  · rename_i t mid
    obtain ⟨n, t⟩ := t
    dsimp only at h
    split at h
    · obtain ⟨⟨f, r1, h1⟩, hexpr, h⟩ := bind_eq_ok.mp h
      obtain ⟨⟨r2, h2⟩, hend, he⟩ := map_eq_ok.mp h
      cases he
      obtain ⟨tokens, hb, hd⟩ := spells_of_expression hexpr
      obtain ⟨n', hr1⟩ := filterEnd_eq_ok hend
      dsimp only at hb hr1
      subst hr1
      exact ⟨_, (hb.trans ((Between.refl r2).cons n' .filterEnd)).cons n .filterStart, .some hd⟩
    · cases h
      exact ⟨_, .refl _, .none⟩

/-- a filter in brackets is read whatever follows -/
theorem filter_of_brackets {tokens : List Token} {f : Filter}
    (hd : Filter.Derives .expression tokens f) {ts rest : TokenStream}
    (hb : Between ts rest (.filterStart :: (tokens ++ [.filterEnd]))) :
    ∃ h, filter ts = .ok (some f, ⟨rest, h⟩) := by
  obtain ⟨n, r1, rfl, hr1⟩ := between_cons_iff.mp hb
  obtain ⟨r2, hinner, hr2⟩ := between_append_iff.mp hr1
  obtain ⟨n', r3, rfl, hr3⟩ := between_cons_iff.mp hr2
  obtain rfl := between_nil_iff.mp hr3
  obtain ⟨h, he⟩ := reads_of_derives hd hinner rfl
  show ∃ h, (expression r1).bind _ = _
  rw [he]
  exact ⟨_, rfl⟩

theorem filter_of_group {tokens : List Token} {f : Option Filter} (hg : Filter.Group tokens f)
    {ts rest : TokenStream} (hb : Between ts rest tokens) (hrest : MemberStart rest) :
    ∃ h, filter ts = .ok (f, ⟨rest, h⟩) := by
  cases hg with
  | none =>
    obtain rfl := between_nil_iff.mp hb
    cases hrest <;> exact ⟨_, rfl⟩
  | some hd => exact filter_of_brackets hd hb

section
variable {s : Schema} (hs : s.Sound)
include hs

theorem castTo_of_blockModel {r : Relationship} {model block : String} {ts : TokenStream}
    {rest : Tail ts} (h : blockModel s r model ts = .ok (block, rest)) :
    ∃ tokens, Between ts rest.1 tokens ∧ s.CastTo r.target tokens block := by
  unfold blockModel at h
  split at h
  · cases h
    exact ⟨_, .refl _, .none⟩
  · cases h
  · rename_i t mid
    obtain ⟨n, t⟩ := t
    dsimp only at h
    split at h
    · obtain ⟨u, hcheck, he⟩ := map_eq_ok.mp h
      cases he
      obtain ⟨m, hm, hcheck⟩ := bind_eq_ok.mp hcheck
      have hm := Schema.modelNamed_ok_iff.mp hm
      split at hcheck
      · rename_i hv
        have hdesc := (hs.isVariantOf_iff_descendsFrom.mp hv).2
        exact ⟨_, (Between.refl mid).cons n (.cast _), .cast hm hdesc⟩
      · cases hcheck
    · cases h
      exact ⟨_, .refl _, .none⟩

theorem blockModel_of_castTo {r : Relationship} {model block : String} {tokens : List Token}
    (hc : s.CastTo r.target tokens block) {ts rest : TokenStream} (hb : Between ts rest tokens)
    (hrest : MemberStart rest) : ∃ h, blockModel s r model ts = .ok (block, ⟨rest, h⟩) := by
  cases hc with
  | none =>
    obtain rfl := between_nil_iff.mp hb
    cases hrest <;> exact ⟨_, rfl⟩
  | cast hm hv =>
    obtain ⟨n, mid, rfl, hmid⟩ := between_cons_iff.mp hb
    obtain rfl := between_nil_iff.mp hmid
    have hcheck : checkCast s r model block = .ok () := by
      rw [checkCast, Schema.modelNamed_of_some hm, bind_ok,
        if_pos (hs.isVariantOf_iff_descendsFrom.mpr ⟨⟨_, hm⟩, hv⟩)]
    show ∃ h, (checkCast s r model block).map _ = _
    rw [hcheck]
    exact ⟨_, rfl⟩

omit hs in
/-- a block within another one, with the braces that close them -/
theorem closed_block (t : Token) (xs ys zs : List Token) :
    t :: (xs ++ (ys ++ .close :: zs)) ++ [.close] =
      t :: (xs ++ ((ys ++ [.close]) ++ (zs ++ [.close]))) := by
  simp

/-- the induction is on the number of tokens, since a block goes on where an inner one ends -/
theorem derives_of_body {model : String} {ts : TokenStream} {members : List Member}
    {rest : Rest ts} (h : body s model ts = .ok (members, rest)) :
    ∃ tokens, Between ts rest.1 (tokens ++ [.close]) ∧ s.Derives model tokens members := by
  obtain ⟨n, hn⟩ : ∃ n, ts.length = n := ⟨_, rfl⟩
  induction n using Nat.strongRecOn generalizing model ts members with
  | ind n ih =>
    subst hn
    unfold body at h
    split at h
    · cases h
    · cases h
    rename_i t tail
    obtain ⟨n, t⟩ := t
    dsimp only at h
    split at h
    -- the brace that closes the block
    · cases h
      exact ⟨[], (Between.refl tail).cons n .close, .nil model⟩
    -- an attribute and the members after it
    · obtain ⟨a, ha, h⟩ := bind_eq_ok.mp h
      obtain ⟨⟨f, r1, h1⟩, hfilter, h⟩ := bind_eq_ok.mp h
      obtain ⟨⟨ms, r2⟩, hbody, he⟩ := map_eq_ok.mp h
      cases he
      obtain ⟨xs, hxs, hg⟩ := group_of_filter hfilter
      obtain ⟨ys, hys, hd⟩ := ih _ (Nat.lt_succ_of_le h1) hbody rfl
      refine ⟨_, ?_, .attr (Schema.attributeOf_ok_iff.mp ha) hg hd⟩
      rw [List.cons_append, List.append_assoc]
      exact (hxs.trans hys).cons n _
    -- an inner block and the members after its end
    · rename_i name
      obtain ⟨r, hr, h⟩ := bind_eq_ok.mp h
      obtain ⟨⟨block, r1, h1⟩, hblock, h⟩ := bind_eq_ok.mp h
      obtain ⟨⟨children, r2, h2⟩, hchildren, h⟩ := bind_eq_ok.mp h
      obtain ⟨⟨ms, r3⟩, hbody, he⟩ := map_eq_ok.mp h
      cases he
      have hlt := Nat.lt_succ_of_lt (Nat.lt_of_lt_of_le h2 h1)
      obtain ⟨xs, hxs, hc⟩ := castTo_of_blockModel hs hblock
      obtain ⟨ys, hys, hd⟩ := ih _ (Nat.lt_succ_of_le h1) hchildren rfl
      obtain ⟨zs, hzs, hd'⟩ := ih _ hlt hbody rfl
      refine ⟨_, ?_, .block (Schema.relationshipOf_ok_iff.mp hr) hc hd hd'⟩
      rw [closed_block]
      exact (hxs.trans (hys.trans hzs)).cons n (.relationshipOpen name)
    · cases h

theorem body_of_derives {model : String} {tokens : List Token} {members : List Member}
    (hd : s.Derives model tokens members) {ts rest : TokenStream}
    (hb : Between ts rest (tokens ++ [.close])) :
    ∃ h, body s model ts = .ok (members, ⟨rest, h⟩) := by
  induction hd generalizing ts rest with
  | nil model =>
    obtain ⟨n, mid, rfl, hmid⟩ := between_cons_iff.mp hb
    obtain rfl := between_nil_iff.mp hmid
    rw [body]
    exact ⟨_, rfl⟩
  | @attr model name a f xs ys members ha hf hrest ih =>
    rw [List.cons_append, List.append_assoc] at hb
    obtain ⟨n, r1, rfl, hr1⟩ := between_cons_iff.mp hb
    obtain ⟨r2, hgroup, hr2⟩ := between_append_iff.mp hr1
    obtain ⟨h, hfilter⟩ := filter_of_group hf hgroup (memberStart_of_derives hrest hr2)
    obtain ⟨h', hbody⟩ := ih hr2
    rw [body]
    dsimp only
    rw [Schema.attributeOf_ok_iff.mpr ha, bind_ok, hfilter]
    show ∃ h, (body s model r2).map _ = _
    rw [hbody]
    exact ⟨_, rfl⟩
  | @block model name block r xs ys zs children members hr hc hchildren hrest ihc ih =>
    rw [closed_block] at hb
    obtain ⟨n, r1, rfl, hr1⟩ := between_cons_iff.mp hb
    obtain ⟨r2, hcast, hr2⟩ := between_append_iff.mp hr1
    obtain ⟨r3, hinner, hr3⟩ := between_append_iff.mp hr2
    obtain ⟨h, hblock⟩ :=
      blockModel_of_castTo hs hc hcast (memberStart_of_derives hchildren hinner)
    obtain ⟨h', hcbody⟩ := ihc hinner
    obtain ⟨h'', hbody⟩ := ih hr3
    -- the reader takes the same steps, each of which is known to succeed
    rw [body]
    dsimp only
    rw [Schema.relationshipOf_ok_iff.mpr hr, bind_ok, hblock]
    show ∃ h, (body s block r2).bind _ = _
    rw [hcbody]
    show ∃ h, (body s model r3).map _ = _
    rw [hbody]
    exact ⟨_, rfl⟩

end

end Parse

/-! ## whole queries -/

namespace Query

section
variable {s : Schema} (hs : s.Sound)
include hs

theorem derives_of_ofTokens {ts : TokenStream} {q : Query} (h : ofTokens s ts = .ok q) :
    ∃ ls, ts = streamOf ls ∧ q.Derives s (tokensOf ls) := by
  obtain ⟨⟨⟨n, t⟩, r1, h1⟩, hnext, h⟩ := bind_eq_ok.mp h
  have hts := Parse.next_eq_ok hnext
  dsimp only at h hts
  split at h
  · rename_i model
    obtain ⟨m, hm, h⟩ := bind_eq_ok.mp h
    obtain ⟨⟨children, r2, h2⟩, hbody, h⟩ := bind_eq_ok.mp h
    obtain ⟨u, hfinish, he⟩ := map_eq_ok.mp h
    cases he
    have hr2 : r2 = [] := by
      cases r2 with
      | nil => rfl
      | cons x r2 => cases x <;> cases hfinish
    subst hr2
    obtain ⟨tokens, ⟨ls, hls, htokens⟩, hd⟩ := Parse.derives_of_body hs hbody
    refine ⟨⟨n, .rootOpen model⟩ :: ls, ?_, ⟨⟨m, Schema.modelNamed_ok_iff.mp hm⟩, tokens, ?_, hd⟩⟩
    · rw [List.append_nil] at hls
      rw [hts]
      exact congrArg _ hls
    · exact congrArg _ htokens
  · cases h

theorem ofTokens_of_derives {ls : List Located} {q : Query} (h : q.Derives s (tokensOf ls)) :
    ofTokens s (streamOf ls) = .ok q := by
  obtain ⟨⟨m, hm⟩, us, hus, hd⟩ := h
  obtain ⟨⟨n, t⟩, ls, rfl, ht, hls⟩ := List.map_eq_cons_iff.mp hus
  obtain rfl : t = .rootOpen q.model := ht
  have hb : Parse.Between (streamOf ls) [] (us ++ [.close]) := ⟨ls, (List.append_nil _).symm, hls⟩
  obtain ⟨h, hbody⟩ := Parse.body_of_derives hs hd hb
  show (s.modelNamed q.model).bind (fun _ => (Parse.body s q.model (streamOf ls)).bind _) = _
  rw [Schema.modelNamed_of_some hm, bind_ok, hbody]
  rfl

/-- the tokens of a query stand for one tree only, since they are read as it -/
theorem Derives.unique {ts : List Token} {q q' : Query} (h : q.Derives s ts)
    (h' : q'.Derives s ts) : q = q' := by
  have hts : tokensOf (ts.map (Located.mk 0)) = ts := by
    rw [tokensOf, List.map_map]
    exact List.map_id _
  rw [← hts] at h h'
  exact Except.ok.inj ((ofTokens_of_derives hs h).symm.trans (ofTokens_of_derives hs h'))

end

end Query

/-- so do those of a filter -/
theorem Filter.Derives.unique {ts : List Token} {f f' : Filter}
    (h : Filter.Derives .expression ts f) (h' : Filter.Derives .expression ts f') : f = f' := by
  -- the lines of the tokens do not matter
  have hb : Parse.Between (streamOf (ts.map (Located.mk 0))) [] ts := by
    refine ⟨_, (List.append_nil _).symm, ?_⟩
    rw [tokensOf, List.map_map]
    exact List.map_id _
  obtain ⟨_, he⟩ := Parse.reads_of_derives h hb rfl
  obtain ⟨_, he'⟩ := Parse.reads_of_derives h' hb rfl
  exact congrArg Prod.fst (Except.ok.inj (he.symm.trans he'))

/-- a stream of tokens is read as a tree exactly when none of it is an error and the grammar says
that the tokens stand for the tree.  They stand for no other one, and a chain of connectives
without parentheses groups to the right. -/
theorem Query.ofTokens_eq_ok_iff {s : Schema} (hs : s.Built) :
    (∀ (ts : TokenStream) (q : Query),
      ofTokens s ts = .ok q ↔
        ∃ ls : List Located, ts = ls.map Except.ok ∧ q.Derives s (ls.map Located.token)) ∧
    (∀ (ts : List Token) (q q' : Query), q.Derives s ts → q'.Derives s ts → q = q') ∧
    ∀ (first : Filter.Factor) (chain : Filter.Chain) (f : Filter),
      Filter.Derives .expression (chain.tokens first) f ↔ f = chain.filter first := by
  refine ⟨fun ts q => ⟨derives_of_ofTokens hs.sound, ?_⟩, fun ts q q' => Derives.unique hs.sound,
    fun first chain f => ⟨fun h => h.unique (chain.derives first), ?_⟩⟩
  · rintro ⟨ls, rfl, h⟩
    exact ofTokens_of_derives hs.sound h
  · rintro rfl
    exact chain.derives first

/-! ## samples and their tubes -/

namespace Samples

/-- samples with tubes, some of which are frozen -/
def declarations : List Declaration :=
  [((Declaration.named "Sample").addKeyColumn "id").addRelationship "tubes" "Tube" .many "id"
      "sample",
    (((Declaration.named "Tube").addKeyColumn "id").addAttribute "sample" .integer).addAttribute
      "type" .string,
    ((Declaration.named "CryoTube").addAttribute "temperature" .integer).withParent "Tube"]

def schema : Schema := (Schema.ofDeclarations declarations).toOption.getD .empty

theorem ofDeclarations_eq : Schema.ofDeclarations declarations = .ok schema := by cbv

theorem built : schema.Built := by
  refine ⟨declarations, fun d hd => ?_, ofDeclarations_eq⟩
  simp only [declarations, List.mem_cons, List.not_mem_nil, or_false] at hd
  rcases hd with rfl | rfl | rfl
  · exact .addRelationship _ _ _ _ _ (.addKeyColumn _ (.named _))
  · exact .addAttribute _ _ (.addAttribute _ _ (.addKeyColumn _ (.named _)))
  · exact .withParent _ (.addAttribute _ _ (.named _))

def tubes : Relationship := ⟨"Sample", "tubes", "Tube", .many, "id", "sample"⟩

/-- a block with a class, and a chain of three terms -/
def text : String :=
  "query Sample \x7b\n tubes (CryoTube) \x7b\n" ++
    "  temperature [all < 0 and any > -80 or any == -196]\n \x7d\n\x7d"

def query : Query := (Query.ofTokens schema (tokenize text)).toOption.getD ⟨"", []⟩

/-- the tokens of the text stand for its tree -/
theorem derives_text :
    schema.Built ∧ ∃ ls : List Located, tokenize text = ls.map Except.ok ∧
      query.Derives schema (ls.map Located.token) :=
  ⟨built, ((Query.ofTokens_eq_ok_iff built).1 (tokenize text) query).mp (by cbv)⟩

end Samples

end NestedQuery
