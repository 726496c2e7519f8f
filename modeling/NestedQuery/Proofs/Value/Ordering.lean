import NestedQuery.Proofs.Number.Rescaling
import NestedQuery.Value.Order

/-!
# The order of values is consistent

Doubles apart, a value has a place in one of seven orders, or in none of them, as nulls and lists.
Two values compare as their places do, and those in two orders not at all.  Numbers are the one
order whose laws are not free: they hold where decimals can be brought to one scale.

* `OrderKind`, `OrderKind.compare`   the orders, and their laws;
* `Place`, `Place.compare?`          what stands in one of the orders;
* `Value.compare?_eq`                values compare as their places;
* `Value.Exact`, `Value.Aligned`     values without doubles and lists, and numbers of one scale;
* `Value.compare?_consistent`        the laws of the order of values.
-/

namespace NestedQuery

/-! ## calendar values and identifiers -/

instance : Ord Date := ⟨Date.compare⟩

instance : Ord TimeOfDay := ⟨TimeOfDay.compare⟩

instance : Std.TransOrd Date :=
  inferInstanceAs (Std.TransCmp
    (compareLex (compareOn Date.year) (compareLex (compareOn Date.month) (compareOn Date.day))))

instance : Std.TransOrd TimeOfDay :=
  inferInstanceAs (Std.TransCmp
    (compareLex (compareOn TimeOfDay.hour) (compareLex (compareOn TimeOfDay.minute)
      (compareLex (compareOn TimeOfDay.second) (compareOn TimeOfDay.nano)))))

instance : Std.TransCmp Timestamp.compare :=
  inferInstanceAs (Std.TransCmp (compareLex (compareOn Timestamp.date) (compareOn Timestamp.time)))

instance : Std.TransCmp Uuid.compare :=
  inferInstanceAs (Std.TransCmp (compareOn fun u : Uuid => u.bits.toNat))

/-- values that are less, equal or greater one after the other -/
theorem compare_trans_of_transCmp {α : Type} {cmp : α → α → Ordering} [Std.TransCmp cmp] {x y z : α}
    {o : Ordering} (hxy : cmp x y = o) (hyz : cmp y z = o) : cmp x z = o := by
  cases o with
  | lt => exact Std.TransCmp.lt_trans hxy hyz
  | eq => exact Std.TransCmp.eq_trans hxy hyz
  | gt => exact Std.TransCmp.gt_trans hxy hyz

/-! ## decimals of one scale -/

namespace Decimal
variable {x y z : Decimal} {o : Ordering}

theorem compare_self (x : Decimal) : x.compare x = .eq := by
  rw [compare_eq (aligned_of_scale_eq rfl)]
  exact Std.ReflCmp.compare_self

theorem compare_swap (h : x.Aligned y) : y.compare x = (x.compare y).swap := by
  rw [compare_eq h, compare_eq h.symm]
  exact Std.OrientedCmp.eq_swap

theorem compare_trans (hxy : x.Aligned y) (hyz : y.Aligned z) (hxz : x.Aligned z)
    (h : x.compare y = o) (h' : y.compare z = o) : x.compare z = o := by
  rw [compare_eq hxy] at h
  rw [compare_eq hyz] at h'
  rw [compare_eq hxz]
  exact compare_trans_of_transCmp h h'

end Decimal

/-! ## seven orders -/

/-- the kinds of values that have an order of their own -/
inductive OrderKind
  | boolean
  | number
  | string
  | date
  | datetime
  | time
  | uuid
deriving DecidableEq

namespace OrderKind

/-- what the order of a kind is about -/
def Content : OrderKind → Type
  | boolean => Bool
  | number => Decimal
  | string => String
  | date => Date
  | datetime => Timestamp
  | time => TimeOfDay
  | uuid => Uuid

def compare : (k : OrderKind) → k.Content → k.Content → Ordering
  | boolean => compareOn Bool.toNat
  | number => Decimal.compare
  | string => fun (x y : String) => Ord.compare x y
  | date => Date.compare
  | datetime => Timestamp.compare
  | time => TimeOfDay.compare
  | uuid => Uuid.compare

/-- numbers can be brought to one scale; contents of the other kinds are comparable as they are -/
def Aligned : (k : OrderKind) → k.Content → k.Content → Prop
  | number => Decimal.Aligned
  | _ => fun _ _ => True

/-- only numbers may fail to be ordered -/
theorem transCmp {k : OrderKind} (h : k ≠ number) : Std.TransCmp k.compare := by
  cases k with
  | number => exact absurd rfl h
  | boolean => exact inferInstanceAs (Std.TransCmp (compareOn Bool.toNat))
  | string => exact inferInstanceAs (Std.TransOrd String)
  | date => exact inferInstanceAs (Std.TransOrd Date)
  | datetime => exact inferInstanceAs (Std.TransCmp Timestamp.compare)
  | time => exact inferInstanceAs (Std.TransOrd TimeOfDay)
  | uuid => exact inferInstanceAs (Std.TransCmp Uuid.compare)

section
variable {k : OrderKind} {x y z : k.Content} {o : Ordering}

theorem compare_self (x : k.Content) : k.compare x x = .eq := by
  by_cases hk : k = number
  · subst hk
    exact Decimal.compare_self x
  · have := transCmp hk
    exact Std.ReflCmp.compare_self

theorem compare_swap (h : k.Aligned x y) : k.compare y x = (k.compare x y).swap := by
  by_cases hk : k = number
  · subst hk
    exact Decimal.compare_swap h
  · have := transCmp hk
    exact Std.OrientedCmp.eq_swap

theorem compare_trans (hxy : k.Aligned x y) (hyz : k.Aligned y z) (hxz : k.Aligned x z)
    (h : k.compare x y = o) (h' : k.compare y z = o) : k.compare x z = o := by
  by_cases hk : k = number
  · subst hk
    exact Decimal.compare_trans hxy hyz hxz h h'
  · have := transCmp hk
    exact compare_trans_of_transCmp h h'

end

end OrderKind

/-! ## places -/

/-- what stands in one of the orders -/
structure Place where
  kind : OrderKind
  content : kind.Content

namespace Place

/-- the order of two places, of one kind only -/
def compare? (p q : Place) : Option Ordering :=
  if h : p.kind = q.kind then some (q.kind.compare (h ▸ p.content) q.content) else none

theorem compare?_of_kind {k : OrderKind} (x y : k.Content) :
    compare? ⟨k, x⟩ ⟨k, y⟩ = some (k.compare x y) := dif_pos rfl

theorem compare?_of_ne {p q : Place} (h : p.kind ≠ q.kind) : p.compare? q = none := dif_neg h

/-- places of one kind, in the order of their contents -/
theorem compare?_eq_some_iff {p q : Place} {o : Ordering} :
    p.compare? q = some o ↔ ∃ (k : OrderKind) (x y : k.Content), p = ⟨k, x⟩ ∧ q = ⟨k, y⟩ ∧
      k.compare x y = o := by
  obtain ⟨k, x⟩ := p
  obtain ⟨l, y⟩ := q
  by_cases h : k = l
  · subst h
    rw [compare?_of_kind]
    constructor
    · intro h
      exact ⟨k, x, y, rfl, rfl, Option.some.inj h⟩
    · rintro ⟨l, x', y', hx, hy, rfl⟩
      cases hx
      cases hy
      rfl
  · rw [compare?_of_ne h]
    refine iff_of_false nofun ?_
    rintro ⟨m, x', y', hx, hy, -⟩
    exact h ((congrArg kind hx).trans (congrArg kind hy).symm)

end Place

namespace Value

/-- the place of a value that is no enumeration member -/
def placeBare? : Value → Option Place
  | boolean b => some ⟨.boolean, b⟩
  | integer n => some ⟨.number, Decimal.ofInt64 n⟩
  | decimal d => some ⟨.number, d⟩
  | string s => some ⟨.string, s⟩
  | date d => some ⟨.date, d⟩
  | datetime t => some ⟨.datetime, t⟩
  | time t => some ⟨.time, t⟩
  | uuid u => some ⟨.uuid, u⟩
  | null => none
  | float _ => none
  | member _ _ => none
  | list _ => none

def place? (v : Value) : Option Place := v.underlying.placeBare?

theorem placeBare?_ne_float {v : Value} {p : Place} (h : v.placeBare? = some p) (x : Binary64) :
    v ≠ float x := by
  rintro rfl
  cases h

theorem compareBare?_eq {a b : Value} (ha : ∀ x, a ≠ float x) (hb : ∀ x, b ≠ float x) :
    compareBare? a b = a.placeBare?.bind fun p => b.placeBare?.bind p.compare? := by
  cases a with
  | float x => exact absurd rfl (ha x)
  | null | member _ _ | list _ => rfl
  | integer m =>
    cases b with
    | float x => exact absurd rfl (hb x)
    | integer n => exact congrArg some (Decimal.compare_ofInt64 m n).symm
    | _ => rfl
  | decimal x =>
    cases b with
    | float x => exact absurd rfl (hb x)
    | _ => rfl
  | boolean _ | string _ | date _ | datetime _ | time _ | uuid _ => cases b <;> rfl

/-- values of one kind always have an order -/
theorem compare?_of_place {a b : Value} {k : OrderKind} {x y : k.Content}
    (ha : a.place? = some ⟨k, x⟩) (hb : b.place? = some ⟨k, y⟩) :
    a.compare? b = some (k.compare x y) := by
  rw [compare?, compareBare?_eq (placeBare?_ne_float ha) (placeBare?_ne_float hb)]
  rw [place?] at ha hb
  rw [ha, hb]
  exact Place.compare?_of_kind x y

/-! ## values without doubles and lists -/

/-- no double and no list, in however many enumeration members -/
def Exact : Value → Prop
  | float _ => False
  | list _ => False
  | member _ value => value.Exact
  | _ => True

/-- a value inside of enumeration members with some names, the first one outermost -/
def wrapped (names : List String) (v : Value) : Value := names.foldr member v

/-- the decimal of a number, in however many enumeration members -/
def number? (v : Value) : Option Decimal :=
  match v.underlying with
  | integer n => some (.ofInt64 n)
  | decimal d => some d
  | _ => none

/-- two values that can be brought to one scale if both are numbers -/
def Aligned (a b : Value) : Prop :=
  ∀ x y, a.number? = some x → b.number? = some y → x.Aligned y

theorem underlying_wrapped (names : List String) (v : Value) :
    (v.wrapped names).underlying = v.underlying := by
  induction names with
  | nil => rfl
  | cons name rest ih => exact ih

/-- without its members such a value is a null, or it has a place -/
theorem Exact.null_or_place : ∀ {a : Value}, a.Exact → a.underlying = null ∨ ∃ p, a.place? = some p
  | member _ value, h => null_or_place (a := value) h
  | null, _ => .inl rfl
  | boolean _, _ | integer _, _ | string _, _ | date _, _ | datetime _, _ | time _, _ | uuid _, _
  | decimal _, _ => .inr ⟨_, rfl⟩

section
variable {a b c : Value}

theorem Exact.underlying_ne_float (h : a.Exact) (x : Binary64) : a.underlying ≠ float x := by
  rcases h.null_or_place with hnull | ⟨p, hp⟩
  · rw [hnull]
    nofun
  · exact placeBare?_ne_float hp x

/-- values compare as their places -/
theorem compare?_eq (ha : a.Exact) (hb : b.Exact) :
    a.compare? b = a.place?.bind fun p => b.place?.bind p.compare? :=
  compareBare?_eq ha.underlying_ne_float hb.underlying_ne_float

theorem compare?_eq_some_iff (ha : a.Exact) (hb : b.Exact) {o : Ordering} :
    a.compare? b = some o ↔ ∃ (k : OrderKind) (x y : k.Content), a.place? = some ⟨k, x⟩ ∧
      b.place? = some ⟨k, y⟩ ∧ k.compare x y = o := by
  simp only [compare?_eq ha hb, Option.bind_eq_some_iff, Place.compare?_eq_some_iff]
  constructor
  · rintro ⟨p, hp, q, hq, k, x, y, rfl, rfl, hxy⟩
    exact ⟨k, x, y, hp, hq, hxy⟩
  · rintro ⟨k, x, y, hp, hq, hxy⟩
    exact ⟨_, hp, _, hq, k, x, y, rfl, rfl, hxy⟩

theorem number?_eq_some_iff {x : Decimal} : a.number? = some x ↔ a.place? = some ⟨.number, x⟩ := by
  have hnumber {y : Decimal} :
      some y = some x ↔ some (⟨.number, y⟩ : Place) = some ⟨.number, x⟩ := by
    constructor <;> intro h <;> cases h <;> rfl
  rw [number?, place?]
  cases a.underlying with
  | integer n => exact hnumber
  | decimal d => exact hnumber
  | _ => exact iff_of_false nofun nofun

theorem Aligned.content (h : a.Aligned b) {k : OrderKind} {x y : k.Content}
    (ha : a.place? = some ⟨k, x⟩) (hb : b.place? = some ⟨k, y⟩) : k.Aligned x y := by
  by_cases hk : k = .number
  · subst hk
    exact h x y (number?_eq_some_iff.mpr ha) (number?_eq_some_iff.mpr hb)
  · cases k with
    | number => exact absurd rfl hk
    | boolean | string | date | datetime | time | uuid => trivial

theorem compare?_self (ha : a.Exact) (hnull : a.underlying ≠ null) : a.compare? a = some .eq := by
  rcases ha.null_or_place with hnull' | ⟨⟨k, x⟩, hp⟩
  · exact absurd hnull' hnull
  · exact (compare?_eq_some_iff ha ha).mpr ⟨k, x, x, hp, hp, OrderKind.compare_self x⟩

theorem compare?_swap_of_eq_some (ha : a.Exact) (hb : b.Exact) (hab : a.Aligned b) {o : Ordering}
    (h : a.compare? b = some o) : b.compare? a = some o.swap := by
  obtain ⟨k, x, y, hx, hy, rfl⟩ := (compare?_eq_some_iff ha hb).mp h
  exact (compare?_eq_some_iff hb ha).mpr
    ⟨k, y, x, hy, hx, OrderKind.compare_swap (hab.content hx hy)⟩

theorem Aligned.symm (h : a.Aligned b) : b.Aligned a := fun x y hx hy => (h y x hy hx).symm

theorem aligned_of_number {x y : Decimal} (hx : a.number? = some x) (hy : b.number? = some y)
    (h : x.Aligned y) : a.Aligned b := by
  intro x' y' hx' hy'
  cases hx.symm.trans hx'
  cases hy.symm.trans hy'
  exact h

theorem compare?_swap (ha : a.Exact) (hb : b.Exact) (hab : a.Aligned b) :
    b.compare? a = (a.compare? b).map Ordering.swap := by
  cases h : a.compare? b with
  | some o => exact compare?_swap_of_eq_some ha hb hab h
  | none =>
    cases h' : b.compare? a with
    | none => rfl
    | some o => cases h.symm.trans (compare?_swap_of_eq_some hb ha hab.symm h')

theorem compare?_trans (ha : a.Exact) (hb : b.Exact) (hc : c.Exact) (hab : a.Aligned b)
    (hbc : b.Aligned c) (hac : a.Aligned c) {o : Ordering} (h : a.compare? b = some o)
    (h' : b.compare? c = some o) : a.compare? c = some o := by
  obtain ⟨k, x, y, hx, hy, hxy⟩ := (compare?_eq_some_iff ha hb).mp h
  obtain ⟨l, y', z, hy', hz, hyz⟩ := (compare?_eq_some_iff hb hc).mp h'
  cases hy.symm.trans hy'
  exact (compare?_eq_some_iff ha hc).mpr ⟨k, x, z, hx, hz, OrderKind.compare_trans
    (hab.content hx hy) (hbc.content hy hz) (hac.content hx hz) hxy hyz⟩

/-- numbers are in the order of the rational numbers that they stand for -/
theorem compare?_of_number {x y : Decimal} (hx : a.number? = some x) (hy : b.number? = some y)
    (h : x.Aligned y) : a.compare? b = some (Ord.compare x.number y.number) := by
  rw [compare?_of_place (number?_eq_some_iff.mp hx) (number?_eq_some_iff.mp hy),
    ← Decimal.compare_eq h]
  rfl

theorem compare?_wrapped (names names' : List String) :
    (a.wrapped names).compare? (b.wrapped names') = a.compare? b := by
  rw [compare?, compare?, underlying_wrapped, underlying_wrapped]

end

/-- values without doubles and lists, any two of which can be brought to one scale where both are
numbers.  A value that is not a null under its enumeration members equals itself; the order of two
values the other way round is the reverse one, and unknown where theirs is; less, equal and
greater are transitive; members around a value make no difference; and numbers of any scales have
the order of rational numbers, so that zeros at the end of a decimal make none either. -/
theorem compare?_consistent {a b c : Value} (ha : a.Exact) (hb : b.Exact) (hc : c.Exact)
    (hab : a.Aligned b) (hbc : b.Aligned c) (hac : a.Aligned c) :
    (a.underlying ≠ null → a.compare? a = some .eq) ∧
    b.compare? a = (a.compare? b).map Ordering.swap ∧
    (∀ o, a.compare? b = some o → b.compare? c = some o → a.compare? c = some o) ∧
    (∀ names names', (a.wrapped names).compare? (b.wrapped names') = a.compare? b) ∧
    ∀ x y, a.number? = some x → b.number? = some y →
      a.compare? b = some (Ord.compare x.number y.number) ∧
      ∀ (x' : Decimal) (zeros : Nat), x'.units = x.units * 10 ^ zeros →
        x'.scale.toNat = x.scale.toNat + zeros → x'.Aligned y →
        (decimal x').compare? b = a.compare? b := by
  refine ⟨compare?_self ha, compare?_swap ha hb hab, fun o => compare?_trans ha hb hc hab hbc hac,
    compare?_wrapped, fun x y hx hy => ?_⟩
  have hxy := compare?_of_number hx hy (hab x y hx hy)
  refine ⟨hxy, fun x' zeros hunits hscale haligned => ?_⟩
  rw [hxy, compare?_of_number rfl hy haligned, Decimal.number_eq_of_zeros hunits hscale]

end Value

/-! ## amounts -/

namespace Amounts

def pair : Value := .member "pair" (.integer 2)

/-- two and a half, with a zero at the end -/
def half : Decimal := ⟨250, 2, by decide⟩

/-- three, with three zeros -/
def three : Decimal := ⟨3000, 3, by decide⟩

theorem aligned_half : pair.Aligned (.decimal half) :=
  Value.aligned_of_number rfl rfl ⟨⟨by decide, by decide⟩, ⟨by decide, by decide⟩⟩

theorem aligned_half_three : (Value.decimal half).Aligned (.decimal three) :=
  Value.aligned_of_number rfl rfl ⟨⟨by decide, by decide⟩, ⟨by decide, by decide⟩⟩

theorem aligned_three : pair.Aligned (.decimal three) :=
  Value.aligned_of_number rfl rfl ⟨⟨by decide, by decide⟩, ⟨by decide, by decide⟩⟩

/-- a member with a whole number, and two decimals of different scales -/
theorem compare?_consistent_amounts :
    pair.Exact ∧ pair.Aligned (.decimal half) ∧ (Value.decimal half).Aligned (.decimal three) ∧
      pair.Aligned (.decimal three) ∧ pair.compare? pair = some .eq ∧
      (Value.decimal half).compare? pair = some .gt ∧ pair.compare? (.decimal three) = some .lt ∧
      (pair.wrapped ["set"]).compare? ((Value.decimal half).wrapped ["more", "most"]) = some .lt ∧
      pair.compare? (.decimal half) = some (compare (Decimal.ofInt64 2).number half.number) := by
  obtain ⟨hself, hswap, htrans, hwrapped, hnumber⟩ := Value.compare?_consistent (a := pair)
    (b := .decimal half) (c := .decimal three) trivial trivial trivial aligned_half
    aligned_half_three aligned_three
  have hless : pair.compare? (.decimal half) = some .lt := by decide
  refine ⟨trivial, aligned_half, aligned_half_three, aligned_three, hself nofun, ?_,
    htrans .lt hless (by decide), ?_, (hnumber _ _ rfl rfl).1⟩
  · rw [hswap, hless]
    rfl
  · rw [hwrapped, hless]

end Amounts

end NestedQuery
