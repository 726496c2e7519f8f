import NestedQuery.Proofs.Query.Filter.Offsets
import NestedQuery.Query.Tokens

/-!
# Where a message about a filter points

A message about a flaw of a filter gives an offset on a line, and shows the line with a caret below
it.  The offset is that of a lexeme of the filter, of a piece of text that is none, or of the end of
the filter, and the caret is below the character there.

* `Line.OpensFilter`              the part of a line before a filter;
* `Line.exists_opening`           the parts of a line with a filter;
* `exists_of_mem_tokenize`        an error among tokens is that of a line;
* `Filter.Flaw.FoundAt`           what is known about the offset of a flaw;
* `malformed_position`            messages about flaws point to such offsets.
-/

namespace NestedQuery

open Text (IsName byteLength offsetOf columnAt?)

/-! ## lines with a filter -/

namespace Line

/-- a name, white space and a bracket -/
def OpensFilter (opening : List Char) : Prop :=
  ∃ (name : String) (gap : List Char), IsName name ∧ (∀ c ∈ gap, Text.isBlank c = true) ∧
    opening = name.toList ++ (gap ++ ['['])

theorem exists_opening {cs body : List Char} {name : String} {start : Nat}
    (h : attribute? cs = some (name, some (start, body))) :
    ∃ opening, OpensFilter opening ∧ cs = opening ++ (body ++ [']']) ∧
      start = opening.length := by
  obtain ⟨⟨found, rest⟩, hname, h⟩ := Option.bind_eq_some_iff.mp h
  obtain ⟨hfound, rfl⟩ := Text.name?_eq_some hname
  obtain ⟨gap, hgap, hrest⟩ := Text.exists_gap rest
  dsimp only at h
  split at h
  · cases h
  · rename_i inner hskip
    split at h
    · rename_i hlast
      cases h
      obtain ⟨body, rfl⟩ := List.getLast?_eq_some_iff.mp hlast
      rw [hskip] at hrest
      refine ⟨name.toList ++ (gap ++ ['[']), ⟨name, gap, hfound, hgap, rfl⟩, ?_, ?_⟩
      · rw [hrest, List.dropLast_concat, List.append_assoc, List.append_assoc,
          List.singleton_append]
      · rw [hrest]
        simp only [List.length_append, List.length_cons, List.length_nil]
        omega
    · cases h
  · cases h

theorem attribute?_of_ofText? {cs : List Char} {name : String} {filter : Option (Nat × List Char)}
    (h : ofText? cs = some (.attribute name filter)) : attribute? cs = some (name, filter) := by
  unfold ofText? at h
  split at h
  · cases h
  · split at h
    · cases h
    · split at h
      · cases h
      · obtain ⟨found, hfound, h⟩ := Option.map_eq_some_iff.mp h
        cases h
        exact hfound

end Line

/-! ## errors among tokens -/

/-- a flaw of a filter is one of the filter of a line -/
theorem lineTokens_eq_malformed {n line column : Nat} {text : List Char} {t : String}
    {flaw : Filter.Flaw}
    (h : lineTokens n text = .error (.filter line t (.malformed column flaw))) :
    line = n ∧ t = String.ofList text ∧ ∃ opening body, Line.OpensFilter opening ∧
      text = opening ++ (body ++ [']']) ∧
      Filter.tokens opening.length body = .error (.malformed column flaw) := by
  unfold lineTokens at h
  split at h
  case h_6 name filter hline =>
    unfold attributeTokens at h
    split at h
    · cases h
    · rename_i start body
      split at h
      · cases h
      · rename_i fault hfault
        cases h
        obtain ⟨opening, hopening, htext, rfl⟩ :=
          Line.exists_opening (Line.attribute?_of_ofText? hline)
        exact ⟨rfl, rfl, opening, body, hopening, htext, hfault⟩
  all_goals cases h

theorem exists_of_mem_followed {line : Nat} {tokens : Except Error (List Token)}
    {rest : TokenStream} {e : Error} (h : .error e ∈ followed line tokens rest) :
    tokens = .error e ∨ .error e ∈ rest := by
  cases tokens with
  | error e' =>
    cases List.mem_singleton.mp h
    exact .inl rfl
  | ok tokens =>
    rcases List.mem_append.mp h with h | h
    · obtain ⟨t, -, ht⟩ := List.mem_map.mp h
      cases ht
    · exact .inr h

theorem exists_of_mem_tokensOfLines {lines : List (Nat × List Char)} {e : Error}
    (h : .error e ∈ tokensOfLines lines) : ∃ l ∈ lines, lineTokens l.1 l.2 = .error e := by
  induction lines with
  | nil => cases h
  | cons l lines ih =>
    rcases exists_of_mem_followed h with h | h
    · exact ⟨l, List.mem_cons_self, h⟩
    · obtain ⟨l', hl, h⟩ := ih h
      exact ⟨l', List.mem_cons_of_mem _ hl, h⟩

/-- an error among tokens is that of a line; the first line has errors of its own -/
theorem exists_of_mem_tokenize {text : String} {e : Error} (h : .error e ∈ tokenize text) :
    ∃ l ∈ Text.numberedLines text.toList,
      lineTokens l.1 l.2 = .error e ∨ rootTokens l.1 l.2 = .error e := by
  unfold tokenize at h
  split at h
  · cases h
  · rename_i line first rest hlines
    rw [hlines]
    rcases exists_of_mem_followed h with h | h
    · exact ⟨(line, first), List.mem_cons_self, .inr h⟩
    · obtain ⟨l, hl, h⟩ := exists_of_mem_tokensOfLines h
      exact ⟨l, List.mem_cons_of_mem _ hl, .inl h⟩

theorem rootTokens_ne_filter (n : Nat) (cs : List Char) (line : Nat) (t : String)
    (fault : Filter.Fault) : rootTokens n cs ≠ .error (.filter line t fault) := by
  unfold rootTokens
  split
  · exact nofun
  · exact nofun

/-! ## positions -/

namespace Filter

/-- a flaw is found at an offset of the line `t`, whose filter `body` stands between `opening` and
the last bracket -/
structure Flaw.FoundAt (flaw : Flaw) (t : String) (opening body : List Char) (offset : Nat) :
    Prop where
  /-- bytes that are counted along the way lead to it -/
  counted : tokensInBytes (byteLength opening) body = .error (.malformed offset flaw)
  lower : byteLength opening ≤ offset
  upper : offset ≤ byteLength opening + byteLength body
  boundary : (⟨offset⟩ : String.Pos.Raw).IsValid t
  marks : ∃ before rest, body = before ++ rest ∧
    offset = byteLength opening + byteLength before ∧ Lexeme.Passed before rest ∧ flaw.Marks rest ∧
    ∀ piece, flaw = .stray piece → piece ≠ "" ∧ piece.toList <+: rest

end Filter

section
variable {t : String} {opening body : List Char} (ht : t.toList = opening ++ (body ++ [']']))
include ht

/-- the columns of a line up to the end of its filter, with their offsets -/
theorem byteOffset_of_append {before rest : List Char} (hbody : body = before ++ rest) :
    Error.byteOffset t (opening.length + before.length) = byteLength (opening ++ before) ∧
      columnAt? t.toList (byteLength (opening ++ before)) =
        some (opening.length + before.length) := by
  have htext : t.toList = opening ++ before ++ (rest ++ [']']) := by
    rw [ht, hbody, List.append_assoc, List.append_assoc]
  rw [Error.byteOffset, ← List.length_append, htext]
  exact ⟨Text.offsetOf_length _ _, Text.columnAt?_byteLength _ _⟩

theorem Filter.Flaw.foundAt {column : Nat} {flaw : Filter.Flaw}
    (h : Filter.tokens opening.length body = .error (.malformed column flaw)) :
    flaw.FoundAt t opening body (Error.byteOffset t column) ∧
      columnAt? t.toList (Error.byteOffset t column) = some column := by
  obtain ⟨rest, ⟨before, hbody, hpassed, rfl⟩, hmarks⟩ := Filter.tokens_eq_malformed h
  obtain ⟨hoffset, hcolumn⟩ := byteOffset_of_append ht hbody
  -- bytes are counted up to the end of the filter only, which does not change those before it
  have hcounted := Filter.tokensInBytes_byteLength opening body
  rw [h, hbody, ← List.append_assoc] at hcounted
  have hbytes : offsetOf (opening ++ before ++ rest) (opening.length + before.length) =
      byteLength (opening ++ before) := by
    rw [← List.length_append, Text.offsetOf_length]
  have hsum := Text.byteLength_append opening before
  rw [hoffset]
  refine ⟨⟨?_, ?_, ?_, Text.exists_columnAt?_iff.mp ⟨_, hcolumn⟩,
    before, rest, hbody, hsum, hpassed, hmarks, ?_⟩, hcolumn⟩
  · rw [hbody, hcounted, ← hbytes]
    rfl
  · omega
  · rw [hsum, hbody, Text.byteLength_append before rest]
    omega
  · rintro piece rfl
    exact hmarks.isPrefix

end

/-- a message about a flaw gives the number of a line and points to a character of the filter on the
line or to the end of the filter -/
theorem malformed_position {text t : String} {line column : Nat} {flaw : Filter.Flaw}
    (h : .error (.filter line t (.malformed column flaw)) ∈ tokenize text) :
    (line, t.toList) ∈ Text.numberedLines text.toList ∧
      ∃ opening body, Line.OpensFilter opening ∧ t.toList = opening ++ (body ++ [']']) ∧
        flaw.FoundAt t opening body (Error.byteOffset t column) ∧
        ∃ spaces, columnAt? t.toList (Error.byteOffset t column) = some spaces ∧
          Error.pointer t column =
            t ++ "\n" ++ String.ofList (List.replicate spaces ' ') ++ "^" := by
  obtain ⟨⟨n, cs⟩, hl, h⟩ := exists_of_mem_tokenize h
  have h := h.resolve_right (rootTokens_ne_filter _ _ _ _ _)
  obtain ⟨rfl, rfl, opening, body, hopening, htext, hflaw⟩ := lineTokens_eq_malformed h
  rw [String.toList_ofList]
  obtain ⟨hfound, hcolumn⟩ := Filter.Flaw.foundAt (t := String.ofList cs)
    (by rw [String.toList_ofList]; exact htext) hflaw
  rw [String.toList_ofList] at hcolumn
  exact ⟨hl, opening, body, hopening, htext, hfound, column, hcolumn, rfl⟩

namespace Samples

/-- a list that is not closed, after a character of two bytes -/
def unclosedLine : String := "type [any == \"ß\" or all in [\"a\", ]"

def unclosed : String := "query Sample \x7b\n\n  " ++ unclosedLine ++ "\n\x7d"

theorem malformed_position_unclosed :
    .error (.filter 3 unclosedLine (.malformed 27 .unclosedList)) ∈ tokenize unclosed ∧
      (3, unclosedLine.toList) ∈ Text.numberedLines unclosed.toList ∧
      ∃ opening body, Line.OpensFilter opening ∧
        unclosedLine.toList = opening ++ (body ++ [']']) ∧
        Filter.Flaw.unclosedList.FoundAt unclosedLine opening body 28 ∧
        ∃ spaces, columnAt? unclosedLine.toList 28 = some spaces ∧
          Error.pointer unclosedLine 27 =
            unclosedLine ++ "\n" ++ String.ofList (List.replicate spaces ' ') ++ "^" := by
  have htokens : tokenize unclosed = [.ok ⟨1, .rootOpen "Sample"⟩,
      .error (.filter 3 unclosedLine (.malformed 27 .unclosedList))] := by cbv
  have hmem : .error (.filter 3 unclosedLine (.malformed 27 .unclosedList)) ∈
      tokenize unclosed := by
    rw [htokens]
    exact List.mem_cons_of_mem _ (List.mem_singleton_self _)
  have hoffset : Error.byteOffset unclosedLine 27 = 28 := by cbv
  have hposition := malformed_position hmem
  rw [hoffset] at hposition
  exact ⟨hmem, hposition⟩

end Samples

end NestedQuery
