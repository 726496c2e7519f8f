import Mathlib
import NestedQuery.Text.Lines
import NestedQuery.Text.Word

/-!
# Names, white space and lines

* `IsName`, `name?_append`       a name at the start of a text is found whole;
* `name?_eq_some`, `exists_gap`  what is found and what follows it make up the text;
* `Blanks`, `Core`               white space on a line, and texts without any at their ends;
* `trimmed_core`                 what is left of a line without the white space around it;
* `Joined`                       lines with newlines between them, of either kind;
* `numberFrom_joined`            the lines of such a text;
* `splitLines_append_newline`, `splitLines_eq_append`   a text cut at one of its newlines;
* `numberFrom_append`, `numberedLines_eq_append`        the same for numbered lines;
* `byteLength_of_ascii`          one byte for each character, where all of them are of ASCII.
-/

namespace NestedQuery.Text

/-! ## spans -/

section
variable {α : Type} {p : α → Bool} {xs rest : List α} (hxs : ∀ x ∈ xs, p x = true)
  (hrest : ∀ x ∈ rest.head?, p x = false)
include hxs hrest

theorem takeWhile_append_of_stop : (xs ++ rest).takeWhile p = xs := by
  rw [List.takeWhile_append_of_pos hxs]
  cases rest with
  | nil => exact List.append_nil xs
  | cons x rest => rw [List.takeWhile_cons_of_neg (Bool.eq_false_iff.mp (hrest x rfl)),
      List.append_nil]

theorem dropWhile_append_of_stop : (xs ++ rest).dropWhile p = rest := by
  rw [List.dropWhile_append_of_pos hxs]
  cases rest with
  | nil => rfl
  | cons x rest => exact List.dropWhile_cons_of_neg (Bool.eq_false_iff.mp (hrest x rfl))

end

/-! ## white space and word characters -/

/-- every blank is in one of the ranges, none of which has a word character -/
theorem isWordChar_of_isBlank {c : Char} (h : isBlank c = true) : isWordChar c = false := by
  have hall :
      ∀ r ∈ blankRanges, ∀ i < r.2 + 1 - r.1, isWordChar (Char.ofNat (r.1 + i)) = false := by
    decide +kernel
  obtain ⟨r, hr, hc⟩ := List.any_eq_true.mp h
  rw [Bool.and_eq_true, decide_eq_true_eq, decide_eq_true_eq] at hc
  have hi := hall r hr (c.toNat - r.1) (by omega)
  rwa [Nat.add_sub_cancel' hc.1, Char.ofNat_toNat] at hi

theorem isBlank_of_isWordChar {c : Char} (h : isWordChar c = true) : isBlank c = false := by
  rw [Bool.eq_false_iff]
  intro hb
  rw [isWordChar_of_isBlank hb] at h
  cases h

/-- letters come after the digits and before everything beyond ASCII -/
theorem toNat_of_isAsciiLetter {c : Char} (h : isAsciiLetter c = true) :
    'A'.toNat ≤ c.toNat ∧ c.toNat < 0x80 := by
  simp only [isAsciiLetter, Char.isAlpha, Char.isUpper, Char.isLower, Bool.or_eq_true,
    decide_eq_true_eq, Bool.and_eq_true, beq_iff_eq, UInt32.le_iff_toNat_le] at h
  rcases h with (⟨hlow, hhigh⟩ | ⟨hlow, hhigh⟩) | rfl
  · exact ⟨hlow, Nat.lt_of_le_of_lt hhigh (by decide)⟩
  · exact ⟨Nat.le_trans (by decide) hlow, Nat.lt_of_le_of_lt hhigh (by decide)⟩
  · decide

theorem isWordChar_of_letter {c : Char} (h : isAsciiLetter c = true) : isWordChar c = true :=
  isWordChar_of_isAsciiLetter h (toNat_of_isAsciiLetter h).2

/-! ## names -/

/-- an ASCII letter or an underscore, and word characters after it -/
def IsName (name : String) : Prop :=
  ∃ c cs, name.toList = c :: cs ∧ isAsciiLetter c = true ∧ ∀ x ∈ cs, isWordChar x = true

theorem IsName.isWordChar {name : String} (h : IsName name) :
    ∀ x ∈ name.toList, isWordChar x = true := by
  obtain ⟨c, cs, hname, hc, hcs⟩ := h
  rw [hname]
  exact List.forall_mem_cons.mpr ⟨isWordChar_of_letter hc, hcs⟩

theorem IsName.newline_not_mem {name : String} (h : IsName name) : '\n' ∉ name.toList :=
  fun hc => nomatch h.isWordChar _ hc

/-- a name is found where no word character follows -/
theorem name?_append {name : String} (h : IsName name) {rest : List Char}
    (hrest : ∀ c ∈ rest.head?, isWordChar c = false) :
    name? (name.toList ++ rest) = some (name, rest) := by
  obtain ⟨c, cs, hname, hc, hcs⟩ := h
  rw [hname, List.cons_append, name?_cons_of_letter hc, takeWhile_append_of_stop hcs hrest,
    dropWhile_append_of_stop hcs hrest, ← hname, String.ofList_toList]

/-- a name and what follows it make up the text -/
theorem name?_eq_some {cs rest : List Char} {name : String}
    (h : name? cs = some (name, rest)) : IsName name ∧ cs = name.toList ++ rest := by
  cases cs with
  | nil => cases h
  | cons c cs =>
    cases hc : isAsciiLetter c with
    | false =>
      rw [name?_cons_of_not_letter hc] at h
      cases h
    | true =>
      rw [name?_cons_of_letter hc] at h
      cases h
      refine ⟨⟨c, _, String.toList_ofList, hc, List.all_eq_true.mp List.all_takeWhile⟩, ?_⟩
      rw [String.toList_ofList, List.cons_append, List.takeWhile_append_dropWhile]

/-! ## white space on a line -/

/-- white space that does not end a line -/
def Blanks (cs : List Char) : Prop := ∀ c ∈ cs, isBlank c = true ∧ c ≠ '\n'

theorem blanks_nil : Blanks [] := nofun

theorem Blanks.newline_not_mem {cs : List Char} (h : Blanks cs) : '\n' ∉ cs :=
  fun hc => (h _ hc).2 rfl

theorem blanks_singleton {c : Char} (h : isBlank c = true) (hc : c ≠ '\n') : Blanks [c] :=
  List.forall_mem_singleton.mpr ⟨h, hc⟩

theorem Blanks.skipBlanks_append {gap : List Char} (h : Blanks gap) (rest : List Char) :
    skipBlanks (gap ++ rest) = skipBlanks rest :=
  List.dropWhile_append_of_pos fun c hc => (h c hc).1

theorem Blanks.skipBlanks_eq_nil {gap : List Char} (h : Blanks gap) : skipBlanks gap = [] := by
  rw [← List.append_nil gap, h.skipBlanks_append, skipBlanks_nil]

theorem skipBlanks_of_not_blank {c : Char} (h : isBlank c = false) (cs : List Char) :
    skipBlanks (c :: cs) = c :: cs := by
  rw [skipBlanks_cons, h]
  rfl

/-- white space and what follows it make up the text -/
theorem exists_gap (cs : List Char) :
    ∃ gap, (∀ c ∈ gap, isBlank c = true) ∧ cs = gap ++ skipBlanks cs :=
  ⟨cs.takeWhile isBlank, List.all_eq_true.mp List.all_takeWhile,
    List.takeWhile_append_dropWhile.symm⟩

/-- a name is found after a gap -/
theorem Blanks.name?_append {gap : List Char} (h : Blanks gap) {name : String} (hname : IsName name)
    {rest : List Char} (hrest : ∀ c ∈ rest.head?, isWordChar c = false) :
    name? (skipBlanks (gap ++ (name.toList ++ rest))) = some (name, rest) := by
  have hfound := Text.name?_append hname hrest
  obtain ⟨c, cs, hcs, hc, -⟩ := hname
  rw [hcs, List.cons_append] at hfound ⊢
  rw [h.skipBlanks_append, skipBlanks_of_not_blank
    (isBlank_of_isWordChar (isWordChar_of_letter hc)), hfound]

/-- what follows a gap is no word character if no word character follows the gap -/
theorem Blanks.head_not_word {gap rest : List Char} (h : Blanks gap)
    (hrest : ∀ c ∈ rest.head?, isWordChar c = false) :
    ∀ c ∈ (gap ++ rest).head?, isWordChar c = false := by
  cases gap with
  | nil => exact hrest
  | cons d gap =>
    intro c hc
    cases Option.mem_some.mp hc
    exact isWordChar_of_isBlank (h d List.mem_cons_self).1

/-- a text that neither starts nor ends with white space -/
structure Core (cs : List Char) : Prop where
  ne_nil : cs ≠ []
  head : ∀ c ∈ cs.head?, isBlank c = false
  last : ∀ c ∈ cs.getLast?, isBlank c = false

/-- a name with something after it that does not end with white space -/
theorem IsName.core_append {name : String} (h : IsName name) {rest : List Char} {c : Char}
    (hrest : rest.getLast? = some c) (hc : isBlank c = false) : Core (name.toList ++ rest) := by
  obtain ⟨d, ds, hname, hd, -⟩ := h
  rw [hname]
  refine ⟨List.cons_ne_nil _ _, fun x hx => ?_, fun x hx => ?_⟩
  · cases Option.mem_some.mp hx
    exact isBlank_of_isWordChar (isWordChar_of_letter hd)
  · rw [List.getLast?_append, hrest] at hx
    cases Option.mem_some.mp hx
    exact hc

theorem IsName.core {name : String} (h : IsName name) : Core name.toList := by
  have hword := h.isWordChar
  obtain ⟨d, ds, hname, hd, -⟩ := h
  rw [hname] at hword ⊢
  refine ⟨List.cons_ne_nil _ _, fun x hx => ?_, fun x hx => ?_⟩
  · exact isBlank_of_isWordChar (hword x (List.mem_of_mem_head? hx))
  · exact isBlank_of_isWordChar (hword x (List.mem_of_getLast? hx))

theorem trimmedEnd_append {cs after : List Char} (h : Blanks after) :
    trimmedEnd (cs ++ after) = trimmedEnd cs := by
  rw [trimmedEnd, trimmedEnd, List.reverse_append, List.dropWhile_append_of_pos fun c hc =>
    (h c (List.mem_reverse.mp hc)).1]

theorem Core.trimmedEnd_eq {cs : List Char} (h : Core cs) : trimmedEnd cs = cs := by
  have hlast := h.last
  rw [List.getLast?_eq_head?_reverse] at hlast
  rw [trimmedEnd]
  cases hr : cs.reverse with
  | nil =>
    rw [List.reverse_eq_nil_iff.mp hr]
    rfl
  | cons c rest =>
    rw [hr] at hlast
    rw [List.dropWhile_cons_of_neg (Bool.eq_false_iff.mp (hlast c rfl)), ← hr,
      List.reverse_reverse]

theorem trimmed_core {before core after : List Char} (hbefore : Blanks before) (h : Core core)
    (hafter : Blanks after) : trimmed (before ++ (core ++ after)) = core := by
  obtain ⟨c, cs, rfl⟩ := List.exists_cons_of_ne_nil h.ne_nil
  rw [trimmed, hbefore.skipBlanks_append, List.cons_append,
    skipBlanks_of_not_blank (h.head c rfl), ← List.cons_append, trimmedEnd_append hafter,
    h.trimmedEnd_eq]

/-- a text without white space is trimmed -/
theorem trimmed_of_not_blank {cs : List Char} (h : ∀ c ∈ cs, isBlank c = false) :
    trimmed cs = cs := by
  cases cs with
  | nil => rfl
  | cons c rest =>
    have hcore : Core (c :: rest) := ⟨List.cons_ne_nil c rest,
      fun x hx => h x (List.mem_of_mem_head? hx), fun x hx => h x (List.mem_of_getLast? hx)⟩
    have htrimmed := trimmed_core blanks_nil hcore blanks_nil
    rwa [List.append_nil] at htrimmed

theorem Blanks.trimmed_eq_nil {cs : List Char} (h : Blanks cs) : trimmed cs = [] := by
  rw [trimmed, h.skipBlanks_eq_nil]
  rfl

theorem trimmed_eq_nil_iff {cs : List Char} : trimmed cs = [] ↔ ∀ c ∈ cs, isBlank c = true := by
  rw [trimmed, trimmedEnd, List.reverse_eq_nil_iff, List.dropWhile_eq_nil_iff]
  constructor
  · intro h
    refine List.dropWhile_eq_nil_iff.mp (by_contra fun hne => ?_)
    have hhead := List.head_dropWhile_not isBlank hne
    have hblank := h _ (List.mem_reverse.mpr (List.head_mem hne))
    rw [hhead] at hblank
    cases hblank
  · intro h c hc
    exact h c ((List.dropWhile_sublist isBlank).mem (List.mem_reverse.mp hc))

/-- white space at the end of a line does not count -/
theorem trimmed_append (cs : List Char) {after : List Char} (h : Blanks after) :
    trimmed (cs ++ after) = trimmed cs := by
  rw [trimmed, trimmed, skipBlanks, List.dropWhile_append]
  split
  · rename_i hcs
    rw [skipBlanks, List.isEmpty_iff.mp hcs]
    exact congrArg trimmedEnd h.skipBlanks_eq_nil
  · exact trimmedEnd_append h

/-! ## lines -/

/-- lines with newlines between them, each with a carriage return before it or without one -/
inductive Joined : List (List Char) → List Char → Prop
  | last (line : List Char) : Joined [line] line
  | lf {lines : List (List Char)} {text : List Char} (line : List Char) (h : Joined lines text) :
    Joined (line :: lines) (line ++ '\n' :: text)
  | crlf {lines : List (List Char)} {text : List Char} (line : List Char) (h : Joined lines text) :
    Joined (line :: lines) (line ++ '\r' :: '\n' :: text)

theorem splitLines_line {line : List Char} (h : '\n' ∉ line) : splitLines line = [line] := by
  induction line with
  | nil => rfl
  | cons c cs ih =>
    obtain ⟨hc, hcs⟩ := List.ne_and_not_mem_of_not_mem_cons h
    rw [splitLines, if_neg hc.symm, ih hcs]

theorem splitLines_append_newline (a b : List Char) :
    splitLines (a ++ '\n' :: b) = splitLines a ++ splitLines b := by
  induction a with
  | nil => rfl
  | cons c a ih =>
    rw [List.cons_append, splitLines, splitLines, ih]
    split
    · rfl
    · obtain ⟨line, rest, hrest⟩ := List.exists_cons_of_ne_nil (splitLines_ne_nil a)
      rw [hrest]
      rfl

theorem splitLines_append {line : List Char} (h : '\n' ∉ line) (text : List Char) :
    splitLines (line ++ '\n' :: text) = line :: splitLines text := by
  rw [splitLines_append_newline, splitLines_line h]
  rfl

/-- lines of a text on the two sides of a newline are the lines of two texts -/
theorem splitLines_eq_append {cs : List Char} {xs ys : List (List Char)} (hxs : xs ≠ [])
    (hys : ys ≠ []) (h : splitLines cs = xs ++ ys) :
    ∃ a b, cs = a ++ '\n' :: b ∧ splitLines a = xs ∧ splitLines b = ys := by
  induction cs generalizing xs with
  | nil =>
    have hlength := congrArg List.length h
    rw [List.length_append, splitLines_nil, List.length_singleton] at hlength
    have hx := List.length_pos_iff.mpr hxs
    have hy := List.length_pos_iff.mpr hys
    omega
  | cons c cs ih =>
    obtain ⟨x, xs, rfl⟩ := List.exists_cons_of_ne_nil hxs
    by_cases hc : c = '\n'
    · subst hc
      rw [splitLines_newline, List.cons_append] at h
      obtain ⟨hx, hrest⟩ := List.cons.inj h
      by_cases hnil : xs = []
      · subst hnil
        exact ⟨[], cs, rfl, congrArg (· :: []) hx, hrest⟩
      · obtain ⟨a, b, rfl, ha, hb⟩ := ih hnil hrest
        exact ⟨'\n' :: a, b, rfl, by rw [splitLines_newline, ha, hx], hb⟩
    · obtain ⟨line, rest, hrest⟩ := List.exists_cons_of_ne_nil (splitLines_ne_nil cs)
      rw [splitLines, if_neg hc, hrest, List.cons_append] at h
      obtain ⟨hx, hmore⟩ := List.cons.inj h
      obtain ⟨a, b, rfl, ha, hb⟩ := ih (List.cons_ne_nil line xs) (by rw [hrest, hmore]; rfl)
      exact ⟨c :: a, b, rfl, by rw [splitLines, if_neg hc, ha, ← hx], hb⟩

theorem numberFrom_congr {line line' : List Char} (h : trimmed line = trimmed line')
    {rest rest' : List (List Char)} (n : Nat)
    (hrest : numberFrom (n + 1) rest = numberFrom (n + 1) rest') :
    numberFrom n (line :: rest) = numberFrom n (line' :: rest') := by
  rw [numberFrom, numberFrom, h, hrest]

/-- the lines of a text are those that it was joined of, up to a carriage return -/
theorem numberFrom_joined {lines : List (List Char)} {text : List Char} (h : Joined lines text)
    (hlines : ∀ line ∈ lines, '\n' ∉ line) (n : Nat) :
    numberFrom n (splitLines text) = numberFrom n lines := by
  induction h generalizing n with
  | last line => rw [splitLines_line (hlines line (List.mem_singleton_self line))]
  | lf line h ih =>
    obtain ⟨hline, hrest⟩ := List.forall_mem_cons.mp hlines
    rw [splitLines_append hline]
    exact numberFrom_congr rfl n (ih hrest (n + 1))
  | crlf line h ih =>
    obtain ⟨hline, hrest⟩ := List.forall_mem_cons.mp hlines
    have hreturn : '\n' ∉ line ++ ['\r'] := by
      rw [List.mem_append, List.mem_singleton]
      exact fun hc => hc.elim hline (by decide)
    rw [List.append_cons, splitLines_append hreturn]
    have htrimmed := trimmed_append line (blanks_singleton (c := '\r') rfl (by decide))
    exact numberFrom_congr htrimmed n (ih hrest (n + 1))

theorem numberFrom_append (n : Nat) (xs ys : List (List Char)) :
    numberFrom n (xs ++ ys) = numberFrom n xs ++ numberFrom (n + xs.length) ys := by
  induction xs generalizing n with
  | nil => rfl
  | cons x xs ih =>
    have hlength : n + (x :: xs).length = n + 1 + xs.length := by
      rw [List.length_cons]
      omega
    rw [List.cons_append, numberFrom, numberFrom, hlength]
    split
    · exact ih (n + 1)
    · rw [ih (n + 1)]
      rfl

/-- a numbered line is one of the lines, and those before it are numbered before it -/
theorem numberFrom_eq_append {n k : Nat} {lines : List (List Char)} {text : List Char}
    {before after : List (Nat × List Char)}
    (h : numberFrom n lines = before ++ (k, text) :: after) :
    ∃ xs line ys, lines = xs ++ line :: ys ∧ numberFrom n xs = before ∧ k = n + xs.length ∧
      trimmed line = text := by
  induction lines generalizing n before with
  | nil => exact nomatch (List.append_eq_nil_iff.mp h.symm).2
  | cons line lines ih =>
    unfold numberFrom at h
    have hshift {xs : List (List Char)} {k : Nat} (hk : k = n + 1 + xs.length) :
        k = n + (line :: xs).length := by
      rw [hk, List.length_cons]
      omega
    split at h
    · rename_i hline
      obtain ⟨xs, l, ys, rfl, hxs, hk, hl⟩ := ih h
      exact ⟨line :: xs, l, ys, rfl, by rw [numberFrom, hline, hxs], hshift hk, hl⟩
    · rename_i c cs hline
      cases before with
      | nil =>
        obtain ⟨hfirst, -⟩ := List.cons.inj h
        cases hfirst
        exact ⟨[], line, lines, rfl, rfl, rfl, hline⟩
      | cons b before =>
        obtain ⟨rfl, hrest⟩ := List.cons.inj h
        obtain ⟨xs, l, ys, rfl, hxs, hk, hl⟩ := ih hrest
        exact ⟨line :: xs, l, ys, rfl, by rw [numberFrom, hline, hxs], hshift hk, hl⟩

/-- a numbered line that is not the first one is after a newline -/
theorem numberedLines_eq_append {cs text : List Char} {k : Nat}
    {before after : List (Nat × List Char)} (hbefore : before ≠ [])
    (h : numberedLines cs = before ++ (k, text) :: after) :
    ∃ a b line rest, cs = a ++ '\n' :: b ∧ splitLines b = line :: rest ∧
      numberedLines a = before ∧ k = (splitLines a).length + 1 ∧ trimmed line = text := by
  obtain ⟨xs, line, ys, hsplit, hxs, hk, hline⟩ := numberFrom_eq_append h
  have hne : xs ≠ [] := by
    rintro rfl
    exact hbefore hxs.symm
  obtain ⟨a, b, hcs, ha, hb⟩ := splitLines_eq_append hne (List.cons_ne_nil line ys) hsplit
  refine ⟨a, b, line, ys, hcs, hb, ?_, ?_, hline⟩
  · rw [numberedLines, ha, hxs]
  · rw [hk, ha, Nat.add_comm]

theorem numberFrom_eq_nil_iff {n : Nat} {lines : List (List Char)} :
    numberFrom n lines = [] ↔ ∀ line ∈ lines, ∀ c ∈ line, isBlank c = true := by
  induction lines generalizing n with
  | nil => exact ⟨fun _ => nofun, fun _ => rfl⟩
  | cons line lines ih =>
    rw [numberFrom, List.forall_mem_cons, ← trimmed_eq_nil_iff]
    split
    · rename_i hline
      rw [ih, hline]
      exact ⟨fun h => ⟨rfl, h⟩, fun h => h.2⟩
    · rename_i c cs hline
      rw [hline]
      exact ⟨nofun, fun h => nomatch h.1⟩

/-! ## bytes -/

theorem byteLength_of_ascii {cs : List Char} (h : ∀ c ∈ cs, c.utf8Size = 1) :
    byteLength cs = cs.length := by
  induction cs with
  | nil => rfl
  | cons c cs ih =>
    obtain ⟨hc, hcs⟩ := List.forall_mem_cons.mp h
    rw [byteLength_cons, hc, ih hcs, List.length_cons, Nat.add_comm]

end NestedQuery.Text
