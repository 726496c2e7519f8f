import NestedQuery.Proofs.Calendar.Fields

/-!
# Calendar values are read as they are printed

* `Date.ofText_text`        dates of any year;
* `TimeOfDay.ofText_text`   times with any fraction, leap seconds too;
* `Timestamp.ofText_text`   points of time in the years 0 to 9999.

Each reader is followed over what the printer wrote, one field after the other.
-/

namespace NestedQuery

/-! ## steps that succeed -/

theorem ok_bind {ε α β : Type} (a : α) (f : α → Except ε β) :
    ((Except.ok a : Except ε α) >>= f) = f a := rfl

theorem some_bind {α β : Type} (a : α) (f : α → Option β) : (some a >>= f) = f a := rfl

/-! ## dates -/

theorem daysInMonth_le (year : Int) (month : Nat) : daysInMonth year month ≤ 31 := by
  unfold daysInMonth
  split_ifs
  all_goals omega

namespace Date

section
variable {n : Nat} {rest : List Char}

/-- a year of four digits has no sign -/
theorem year_padded (hn : n < 10000) (hrest : ∀ c ∈ rest.head?, c.isDigit = false) :
    Calendar.year (Calendar.padded 4 n ++ rest) = .ok ((n : Int), rest) := by
  have hnumber : Calendar.number (some 4) (Calendar.padded 4 n ++ rest) = .ok (n, rest) :=
    Calendar.number_some_padded (by decide) (Nat.le_refl 4) hn (by omega) hrest
  obtain ⟨c, cs, hcs, hc⟩ := Calendar.exists_padded_cons 4 n
  have hminus {rest'} (h : c :: (cs ++ rest) = '-' :: rest') : False := by
    cases h
    cases hc
  have hplus {rest'} (h : c :: (cs ++ rest) = '+' :: rest') : False := by
    cases h
    cases hc
  rw [Calendar.year, Calendar.skipBlanks_padded]
  rw [hcs, List.cons_append] at hnumber ⊢
  split
  next e hread =>
    split at hread
    next heq => exact (hminus heq).elim
    next heq => exact (hplus heq).elim
    next =>
      simp only [hnumber] at hread
      cases hread
  next m rest' hread =>
    split at hread
    next heq => exact (hminus heq).elim
    next heq => exact (hplus heq).elim
    next =>
      simp only [hnumber] at hread
      cases hread
      exact if_pos ⟨by omega, by omega⟩

/-- a sign allows for any number of digits -/
theorem year_signed (hn : n < 0x80000000) (negative : Bool)
    (hrest : ∀ c ∈ rest.head?, c.isDigit = false) :
    Calendar.year ((if negative then '-' else '+') :: (Calendar.padded 4 n ++ rest)) =
      .ok (if negative then -(n : Int) else n, rest) := by
  have hnumber : Calendar.number none (Calendar.padded 4 n ++ rest) = .ok (n, rest) :=
    Calendar.number_padded nofun (by omega) hrest
  cases negative with
  | true =>
    show Calendar.year ('-' :: (Calendar.padded 4 n ++ rest)) = _
    rw [Calendar.year, Text.skipBlanks_of_not_blank rfl]
    simp only [hnumber, ↓reduceIte]
    exact if_pos ⟨by omega, by omega⟩
  | false =>
    show Calendar.year ('+' :: (Calendar.padded 4 n ++ rest)) = _
    rw [Calendar.year, Text.skipBlanks_of_not_blank rfl]
    simp only [hnumber, Bool.false_eq_true, ↓reduceIte]
    exact if_pos ⟨by omega, by omega⟩

theorem year_yearText (year : Int) (hyear : year.natAbs < 0x80000000)
    (hrest : ∀ c ∈ rest.head?, c.isDigit = false) :
    Calendar.year (yearText year ++ rest) = .ok (year, rest) := by
  rw [yearText]
  split
  next h =>
    rw [year_padded (by omega) hrest, Int.natAbs_of_nonneg h.1]
  next h =>
    have hsigned := year_signed hyear (decide (year < 0)) hrest
    simp only [decide_eq_true_eq] at hsigned
    rw [List.cons_append, hsigned]
    congr 2
    omega

/-- the fields of a printed date, with something after it that does not go on with a digit -/
theorem fields_text (d : Date) (hrest : ∀ c ∈ rest.head?, c.isDigit = false) :
    fields (d.text ++ rest) = .ok ((d.year, d.month, d.day), rest) := by
  obtain ⟨⟨hleast, hgreatest⟩, ⟨hmonth, hmonth'⟩, ⟨hday, hday'⟩⟩ := d.inCalendar
  have hdays := daysInMonth_le d.year d.month
  have htext : d.text ++ rest = yearText d.year ++ '-' :: (Calendar.padded 2 d.month ++
      '-' :: (Calendar.padded 2 d.day ++ rest)) := by
    simp only [text, List.append_assoc, List.cons_append]
  have hdayField := Calendar.field_padded hday (hday'.trans hdays) (by omega) hrest
  have hmonthField := Calendar.field_padded hmonth hmonth' (by omega)
    (Calendar.head_not_digit '-' rfl (Calendar.padded 2 d.day ++ rest))
  have hyearField := year_yearText d.year (by omega)
    (Calendar.head_not_digit '-' rfl (Calendar.padded 2 d.month ++
      '-' :: (Calendar.padded 2 d.day ++ rest)))
  rw [htext]
  simp only [fields, hyearField, hmonthField, hdayField, Calendar.literal_cons, ok_bind]
  rfl

end

theorem ofFields_self (d : Date) : ofFields (d.year, d.month, d.day) = .ok d := by
  rw [ofFields, ofYmd?_self]

/-- a date of any year is read as it is printed -/
theorem ofText_text (d : Date) : ofText d.text = .ok d := by
  have hfields : fields (d.text ++ []) = _ := d.fields_text nofun
  rw [List.append_nil] at hfields
  rw [ofText, hfields]
  exact d.ofFields_self

end Date

/-! ## times of day -/

namespace TimeOfDay

section
variable {rest : List Char}

/-- the fields of a printed time down to the second -/
theorem fields_text (t : TimeOfDay) (hrest : ∀ c ∈ rest.head?, c.isDigit = false) :
    fields (Calendar.padded 2 t.hour ++ ':' :: (Calendar.padded 2 t.minute ++
      ':' :: (Calendar.padded 2 t.second ++ rest))) =
        .ok ((t.hour, t.minute, t.second), rest) := by
  obtain ⟨hhour, hminute, hsecond, -⟩ := t.onClock
  have hsecondField := Calendar.field_padded (Nat.zero_le _) hsecond (by omega) hrest
  have hminuteField := Calendar.field_padded (Nat.zero_le _) (Nat.le_of_lt_succ hminute) (by omega)
    (Calendar.head_not_digit ':' rfl (Calendar.padded 2 t.second ++ rest))
  have hhourField := Calendar.field_padded (Nat.zero_le _) (Nat.le_of_lt_succ hhour) (by omega)
    (Calendar.head_not_digit ':' rfl (Calendar.padded 2 t.minute ++
      ':' :: (Calendar.padded 2 t.second ++ rest)))
  simp only [fields, hhourField, hminuteField, hsecondField, Calendar.literal_cons, ok_bind]
  rfl

/-- a printed fraction is none, or starts with the point -/
theorem head_fractionText (nano : Nat) (hrest : ∀ c ∈ rest.head?, c.isDigit = false) :
    ∀ c ∈ (fractionText nano ++ rest).head?, c.isDigit = false := by
  unfold fractionText
  split_ifs
  · exact hrest
  all_goals exact Calendar.head_not_digit '.' rfl _

/-- a fraction that is printed with enough places for every billionth to show, the last of which
counts for `unit` of them -/
theorem optionalFraction_padded (width unit : Nat) {nano : Nat} (hwidth : 0 < width)
    (hle : width ≤ 9) (hunit : tenPow (9 - width) = unit) (htotal : unit * 10 ^ width = 1000000000)
    (hnano : nano < 1000000000) (hplaces : nano % unit = 0)
    (hrest : ∀ c ∈ rest.head?, c.isDigit = false) :
    optionalFraction ('.' :: Calendar.padded width (nano / unit) ++ rest) = .ok (nano, rest) := by
  have hdigits : nano / unit < 10 ^ width := Nat.div_lt_of_lt_mul (htotal ▸ hnano)
  show Calendar.fraction (Calendar.padded width (nano / unit) ++ rest) = _
  rw [Calendar.fraction_padded hwidth hle hdigits hrest, hunit,
    Nat.div_mul_cancel (Nat.dvd_of_mod_eq_zero hplaces)]

/-- a fraction is read as it is printed, whatever the number of its places -/
theorem optionalFraction_text {nano : Nat} (hnano : nano < 1000000000)
    (hrest : ∀ c ∈ rest.head?, c.isDigit = false) (hpoint : '.' ∉ rest.head?) :
    optionalFraction (fractionText nano ++ rest) = .ok (nano, rest) := by
  unfold fractionText
  split_ifs with hzero hmilli hmicro
  · subst hzero
    rw [List.nil_append]
    unfold optionalFraction
    split
    · exact absurd rfl hpoint
    · rfl
  · exact optionalFraction_padded 3 1000000 (by decide) (by decide) rfl rfl hnano hmilli hrest
  · exact optionalFraction_padded 6 1000 (by decide) (by decide) rfl rfl hnano hmicro hrest
  · have hnine := optionalFraction_padded 9 1 (by decide) (Nat.le_refl 9) rfl rfl hnano
      (Nat.mod_one nano) hrest
    rw [Nat.div_one] at hnine
    exact hnine

end

theorem ofFields_self (t : TimeOfDay) :
    ofFields ((t.hour, t.minute, t.second), t.nano) = .ok t := by
  rw [ofFields, ofFields?_self]

theorem text_append (t : TimeOfDay) (rest : List Char) :
    t.text ++ rest = Calendar.padded 2 t.hour ++ ':' :: (Calendar.padded 2 t.minute ++
      ':' :: (Calendar.padded 2 t.second ++ (fractionText t.nano ++ rest))) := by
  simp only [text, List.append_assoc, List.cons_append]

/-- a time is read as it is printed -/
theorem ofText_text (t : TimeOfDay) : ofText t.text = .ok t := by
  have htext := t.text_append []
  have hhead : ∀ c ∈ (fractionText t.nano ++ []).head?, c.isDigit = false :=
    head_fractionText t.nano nofun
  have hfields := t.fields_text hhead
  have hfraction : optionalFraction (fractionText t.nano ++ []) = .ok (t.nano, []) :=
    optionalFraction_text t.onClock.2.2.2 nofun nofun
  rw [List.append_nil] at htext
  rw [← htext] at hfields
  simp only [ofText, hfields, hfraction, ok_bind]
  exact t.ofFields_self

end TimeOfDay

/-! ## points of time -/

namespace Timestamp

theorem oneOf?_first (c : Char) (others rest : List Char) :
    oneOf? (c :: others) (c :: rest) = some rest := if_pos List.mem_cons_self

/-- a local reading without an offset is the point of time itself -/
theorem ofLocal?_self (t : Timestamp) : ofLocal? t.date t.time 0 = some t := by
  obtain ⟨hhour, hminute, -⟩ := t.time.onClock
  have htotal : ((t.time.hour * 60 + t.time.minute : Nat) - 0 : Int).toNat =
      t.time.hour * 60 + t.time.minute := by omega
  have hhours : (t.time.hour * 60 + t.time.minute) / 60 = t.time.hour := by omega
  have hminutes : (t.time.hour * 60 + t.time.minute) % 60 = t.time.minute := by omega
  rw [ofLocal?, atMinute?, if_neg (by omega), if_neg (by omega)]
  simp only [Option.bind_eq_bind, Option.bind_some, htotal, hhours, hminutes,
    TimeOfDay.ofFields?_self]
  rfl

theorem exactly?_two {n : Nat} (hn : n < 100) (rest : List Char) :
    exactly? 2 (Calendar.padded 2 n ++ rest) = some (n, rest) := exactly?_padded (by decide) hn rest

/-- the fields of a date and a time of the same widths, with an offset that is none -/
theorem ofRfc3339?_fields {t : Timestamp} (h : 0 ≤ t.date.year ∧ t.date.year ≤ 9999)
    (zone : List Char) (hzone : offset? zone = some (0, []))
    (hdigit : ∀ c ∈ zone.head?, c.isDigit = false) (hpoint : '.' ∉ zone.head?) :
    ofRfc3339? (Calendar.padded 4 t.date.year.toNat ++ '-' :: (Calendar.padded 2 t.date.month ++
      '-' :: (Calendar.padded 2 t.date.day ++ 'T' :: (t.time.text ++ zone)))) = some t := by
  obtain ⟨-, ⟨-, hmonth⟩, ⟨-, hday⟩⟩ := t.date.inCalendar
  obtain ⟨hhour, hminute, hsecond, hnano⟩ := t.time.onClock
  have hdays := daysInMonth_le t.date.year t.date.month
  have hyear : t.date.year.toNat < 10 ^ 4 := by omega
  have hmonthField := exactly?_two (n := t.date.month) (by omega)
  have hdayField := exactly?_two (n := t.date.day) (by omega)
  have hhourField := exactly?_two (n := t.time.hour) (by omega)
  have hminuteField := exactly?_two (n := t.time.minute) (by omega)
  have hsecondField := exactly?_two (n := t.time.second) (by omega)
  have hfraction := TimeOfDay.optionalFraction_text hnano hdigit hpoint
  have hdate : Date.ofYmd? t.date.year.toNat t.date.month t.date.day = some t.date := by
    rw [Int.toNat_of_nonneg h.1, Date.ofYmd?_self]
  rw [TimeOfDay.text_append]
  simp only [ofRfc3339?, exactly?_padded (by decide) hyear, hmonthField, hdayField, hhourField,
    hminuteField, hsecondField, hfraction, hzone, oneOf?_first, some_bind, Except.toOption,
    List.isEmpty_nil, ↓reduceIte, hdate, TimeOfDay.ofFields?_self, ofLocal?_self]

theorem ofRfc3339?_text {t : Timestamp} (h : 0 ≤ t.date.year ∧ t.date.year ≤ 9999) :
    ofRfc3339? t.text = some t := by
  have hyear : Date.yearText t.date.year = Calendar.padded 4 t.date.year.toNat := by
    rw [Date.yearText, if_pos h]
    congr 1
    omega
  have hfields := ofRfc3339?_fields h "+00:00".toList rfl
    (Calendar.head_not_digit '+' rfl _) nofun
  simp only [text, Date.text, hyear, List.append_assoc, List.cons_append]
  exact hfields

/-- a point of time in a year of four digits is read as it is printed -/
theorem ofText_text {t : Timestamp} (h : 0 ≤ t.date.year ∧ t.date.year ≤ 9999) :
    ofText t.text = .ok t := by
  rw [ofText, ofRfc3339?_text h]

-- the plain form, which has years with a sign, does not have the letter before the time
example : ofText "+10000-01-01T00:00:00+00:00".toList = .error .invalid := by cbv

end Timestamp

end NestedQuery
