import NestedQuery.Coercion.Basic
import NestedQuery.Proofs.Dict
import NestedQuery.Proofs.Outcome

/-!
# What the standard coercions make of values

The standard coercions read strings, and some integers, as values of a declared type.  They leave
all other values as they are, whether the type accepts them or not.

* `AttributeType.takes`      the values that a type accepts once they are coerced;
* `Coercion.Brought`         a scalar that is read, or left as it is;
* `Coercion.Suits`           one or the other, unless a scalar that is taken cannot be read;
* `Coercions.coerceScalar_cases`   the standard coercions are of this kind;
* `Coercions.coerce_of_not_takes`   a scalar that is not taken comes out as it is;
* `Coercions.typed_of_coerce`   what comes out is accepted if what goes in is taken.
-/

namespace NestedQuery

/-! ## types -/

namespace AttributeType

/-- whether the standard coercion to the type reads a scalar as something else -/
def reads : AttributeType → Value → Bool
  | date, .string _ => true
  | datetime, .string _ => true
  | time, .string _ => true
  | uuid, .string _ => true
  | decimal, .string _ => true
  | float, .string _ => true
  | enum _, .string _ => true
  | enum _, .integer _ => true
  | _, _ => false

def takesScalar (type : AttributeType) (v : Value) : Bool := type.acceptsScalar v || type.reads v

theorem accepts_eq_takes {type : AttributeType} {v : Value} (h : type.reads v = false) :
    type.acceptsScalar v = type.takesScalar v := by
  rw [takesScalar, h, Bool.or_false]

/-- values of enumerations apart, strings are all that is read -/
theorem reads_eq_false {type : AttributeType} {v : Value} (htype : ∀ members, type ≠ .enum members)
    (hv : ∀ s, v ≠ .string s) : type.reads v = false := by
  unfold reads
  split
  all_goals first | rfl | exact absurd rfl (hv _) | exact absurd rfl (htype _)

mutual

/-- whether a value is accepted or read; a list is when all its items are -/
def takes (type : AttributeType) : Value → Bool
  | .list items => takesAll type items
  | value => takesScalar type value

def takesAll (type : AttributeType) : List Value → Bool
  | [] => true
  | value :: rest => takes type value && takesAll type rest

end

theorem accepts_of_scalar (type : AttributeType) {v : Value} (h : v.asList? = none) :
    type.accepts v = type.acceptsScalar v := by
  cases v with
  | list items => cases h
  | _ => rfl

theorem takes_of_scalar (type : AttributeType) {v : Value} (h : v.asList? = none) :
    type.takes v = type.takesScalar v := by
  cases v with
  | list items => cases h
  | _ => rfl

end AttributeType

/-! ## scalars -/

namespace Coercion

/-- what a coercion makes of a scalar: the scalar itself, or a value that the type accepts -/
inductive Brought (type : AttributeType) (v : Value) : Value → Prop
  | kept (h : type.acceptsScalar v = type.takesScalar v) : Brought type v v
  | made {w : Value} (hv : v ≠ .null) (htakes : type.takesScalar v = true)
      (hw : type.acceptsScalar w = true) (hnull : w ≠ .null) (hlist : w.asList? = none) :
      Brought type v w

/-- a coercion of a scalar, which may fail if the type takes the scalar -/
def Suits (type : AttributeType) (v : Value) : Except Fault Value → Prop
  | .ok w => Brought type v w
  | .error _ => type.takesScalar v = true

section
variable {type : AttributeType} {α ε : Type} {make : α → Value}

/-- a type that takes strings, of which values are made that it accepts -/
structure ReadsStrings (type : AttributeType) (make : α → Value) : Prop where
  notEnum : ∀ members, type ≠ .enum members
  strings : ∀ s, type.takesScalar (.string s) = true
  makes : ∀ x, type.acceptsScalar (make x) = true
  scalar : ∀ x, make x ≠ .null ∧ (make x).asList? = none

theorem suits_ofStrings (h : ReadsStrings type make) (read : List Char → Except ε α)
    (fault : ε → Fault) (v : Value) : Suits type v (ofStrings read fault make type v) := by
  cases v with
  | string s =>
    unfold ofStrings
    dsimp only
    cases read s.toList with
    | ok x => exact .made nofun (h.strings s) (h.makes x) (h.scalar x).1 (h.scalar x).2
    | error e => exact h.strings s
  | _ => exact .kept (AttributeType.accepts_eq_takes (AttributeType.reads_eq_false h.notEnum nofun))

theorem suits_toDate (h : ReadsStrings type Value.date) (v : Value) :
    Suits type v (toDate type v) := suits_ofStrings h Date.ofText .calendar v

theorem suits_toDatetime (h : ReadsStrings type Value.datetime) (v : Value) :
    Suits type v (toDatetime type v) := suits_ofStrings h Timestamp.ofText .calendar v

theorem suits_toTime (h : ReadsStrings type Value.time) (v : Value) :
    Suits type v (toTime type v) := suits_ofStrings h TimeOfDay.ofText .calendar v

theorem suits_toUuid (h : ReadsStrings type Value.uuid) (v : Value) :
    Suits type v (toUuid type v) := suits_ofStrings h Uuid.ofText .uuid v

/-- a whole number that a type accepts may be made another number -/
theorem ReadsStrings.brought_integer (h : ReadsStrings type make)
    (hinteger : ∀ n, type.acceptsScalar (.integer n) = true) (n : Int64) (x : α) :
    Brought type (.integer n) (make x) := by
  refine .made nofun ?_ (h.makes x) (h.scalar x).1 (h.scalar x).2
  rw [AttributeType.takesScalar, hinteger, Bool.true_or]

theorem suits_toDecimal (h : ReadsStrings type Value.decimal)
    (hinteger : ∀ n, type.acceptsScalar (.integer n) = true) (v : Value) :
    Suits type v (toDecimal type v) := by
  cases v with
  | integer n => exact h.brought_integer hinteger n (.ofInt64 n)
  | _ => exact suits_ofStrings h Decimal.ofText .decimal _

theorem suits_toFloat (h : ReadsStrings type Value.float)
    (hinteger : ∀ n, type.acceptsScalar (.integer n) = true) (v : Value) :
    Suits type v (toFloat type v) := by
  cases v with
  | integer n => exact h.brought_integer hinteger n (.ofInt n.toInt)
  | _ => exact suits_ofStrings h Binary64.ofText .float _

end

theorem suits_orNoMember {type : AttributeType} {v : Value} {x : Option Value} (hv : v ≠ .null)
    (htakes : type.takesScalar v = true)
    (hx : ∀ m, x = some m → ∃ name w, m = .member name w ∧ type.acceptsScalar m = true) :
    Suits type v (orNoMember v x) := by
  cases x with
  | none => exact htakes
  | some m =>
    obtain ⟨name, w, rfl, haccepts⟩ := hx m rfl
    exact .made hv htakes haccepts nofun rfl

theorem suits_toMember (members : Dict Value) (v : Value) :
    Suits (.enum members) v (toMember (.enum members) v) := by
  have hnamed (s : String) {m : Value} (h : memberNamed? members s = some m) :
      ∃ name w, m = .member name w ∧ (AttributeType.enum members).acceptsScalar m = true := by
    obtain ⟨w, -, rfl⟩ := Option.map_eq_some_iff.mp h
    exact ⟨_, _, rfl, rfl⟩
  have hvalued (v : Value) {m : Value} (h : memberValued? members v = some m) :
      ∃ name w, m = .member name w ∧ (AttributeType.enum members).acceptsScalar m = true := by
    obtain ⟨e, -, rfl⟩ := Option.map_eq_some_iff.mp h
    exact ⟨_, _, rfl, rfl⟩
  cases v with
  | string s =>
    refine suits_orNoMember nofun rfl fun m hm => ?_
    rcases Option.or_eq_some_iff.mp (Option.orElse_eq_or.symm.trans hm) with h | ⟨-, h⟩
    · exact hnamed s h
    · exact hvalued _ h
  | integer n => exact suits_orNoMember nofun rfl fun m hm => hvalued _ hm
  | _ => exact .kept rfl

end Coercion

namespace Coercions
open Coercion

/-- a type of any other name takes every value, whatever the coercion is that has the name -/
theorem suits_standard_custom {name : String} {coercer : Coercer}
    (h : standard.byKey.get? name = some coercer) (v : Value) :
    Suits (.custom name) v (coercer (.custom name) v) := by
  have hmem : (name, coercer) ∈ standard.byKey.entries := Dict.mem_entries_iff.mpr h
  have hentries : standard.byKey.entries = [("date", toDate), ("datetime", toDatetime),
      ("decimal", toDecimal), ("enum", toMember), ("float", toFloat), ("time", toTime),
      ("uuid", toUuid)] := rfl
  have hreads {α : Type} {make : α → Value}
      (hscalar : ∀ x, make x ≠ .null ∧ (make x).asList? = none) :
      ReadsStrings (.custom name) make :=
    ⟨fun _ => nofun, fun _ => rfl, fun _ => rfl, hscalar⟩
  rw [hentries] at hmem
  simp only [List.mem_cons, Prod.mk.injEq, List.not_mem_nil, or_false] at hmem
  rcases hmem with ⟨-, rfl⟩ | ⟨-, rfl⟩ | ⟨-, rfl⟩ | ⟨-, rfl⟩ | ⟨-, rfl⟩ | ⟨-, rfl⟩ | ⟨-, rfl⟩
  · exact suits_toDate (hreads fun _ => ⟨nofun, rfl⟩) v
  · exact suits_toDatetime (hreads fun _ => ⟨nofun, rfl⟩) v
  · exact suits_toDecimal (hreads fun _ => ⟨nofun, rfl⟩) (fun _ => rfl) v
  · exact .kept rfl
  · exact suits_toFloat (hreads fun _ => ⟨nofun, rfl⟩) (fun _ => rfl) v
  · exact suits_toTime (hreads fun _ => ⟨nofun, rfl⟩) v
  · exact suits_toUuid (hreads fun _ => ⟨nofun, rfl⟩) v

/-- the coercion that the standard table has for a type suits it -/
theorem suits_standard {type : AttributeType} {coercer : Coercer}
    (h : standard.byKey.get? type.key = some coercer) (v : Value) :
    Suits type v (coercer type v) := by
  have hentry {c : Coercer} (hget : standard.byKey.get? type.key = some c) : coercer = c :=
    Option.some.inj (h.symm.trans hget)
  cases type with
  | integer | string | boolean => cases h
  | date =>
    obtain rfl : coercer = toDate := hentry rfl
    have hreads : ReadsStrings .date Value.date :=
      ⟨fun _ => nofun, fun _ => rfl, fun _ => rfl, fun _ => ⟨nofun, rfl⟩⟩
    exact suits_toDate hreads v
  | datetime =>
    obtain rfl : coercer = toDatetime := hentry rfl
    have hreads : ReadsStrings .datetime Value.datetime :=
      ⟨fun _ => nofun, fun _ => rfl, fun _ => rfl, fun _ => ⟨nofun, rfl⟩⟩
    exact suits_toDatetime hreads v
  | time =>
    obtain rfl : coercer = toTime := hentry rfl
    have hreads : ReadsStrings .time Value.time :=
      ⟨fun _ => nofun, fun _ => rfl, fun _ => rfl, fun _ => ⟨nofun, rfl⟩⟩
    exact suits_toTime hreads v
  | uuid =>
    obtain rfl : coercer = toUuid := hentry rfl
    have hreads : ReadsStrings .uuid Value.uuid :=
      ⟨fun _ => nofun, fun _ => rfl, fun _ => rfl, fun _ => ⟨nofun, rfl⟩⟩
    exact suits_toUuid hreads v
  | decimal =>
    obtain rfl : coercer = toDecimal := hentry rfl
    have hreads : ReadsStrings .decimal Value.decimal :=
      ⟨fun _ => nofun, fun _ => rfl, fun _ => rfl, fun _ => ⟨nofun, rfl⟩⟩
    exact suits_toDecimal hreads (fun _ => rfl) v
  | float =>
    obtain rfl : coercer = toFloat := hentry rfl
    have hreads : ReadsStrings .float Value.float :=
      ⟨fun _ => nofun, fun _ => rfl, fun _ => rfl, fun _ => ⟨nofun, rfl⟩⟩
    exact suits_toFloat hreads (fun _ => rfl) v
  | enum members =>
    obtain rfl : coercer = toMember := hentry rfl
    exact suits_toMember members v
  | custom name => exact suits_standard_custom h v

/-- a type without a coercion accepts what it takes -/
theorem accepts_eq_takes_of_none {type : AttributeType}
    (h : standard.byKey.get? type.key = none) (v : Value) :
    type.acceptsScalar v = type.takesScalar v := by
  refine AttributeType.accepts_eq_takes ?_
  cases type with
  | integer | string | boolean | custom name => rfl
  | date | datetime | time | uuid | decimal | float | enum members => cases h

/-- a scalar is brought to the type of an attribute, or the type takes it and it cannot be read -/
theorem coerceScalar_cases (a : Attribute) (v : Value) :
    (∃ w, standard.coerceScalar a v = .ok w ∧ Brought a.type v w) ∨
      a.type.takesScalar v = true ∧
        ∃ fault, standard.coerceScalar a v = .error (.invalidLiteral a v fault) := by
  unfold coerceScalar
  cases hget : standard.byKey.get? a.type.key with
  | none => exact .inl ⟨v, rfl, .kept (accepts_eq_takes_of_none hget v)⟩
  | some coercer =>
    have hsuits := suits_standard hget v
    dsimp only
    cases hv : coercer a.type v with
    | ok w =>
      rw [hv] at hsuits
      exact .inl ⟨w, rfl, hsuits⟩
    | error fault =>
      rw [hv] at hsuits
      exact .inr ⟨hsuits, fault, rfl⟩

/-! ## values -/

theorem coerce_of_scalar (c : Coercions) (a : Attribute) {v : Value} (h : v.asList? = none) :
    c.coerce a v = c.coerceScalar a v := by
  cases v with
  | list items => cases h
  | _ => rfl

/-- a scalar that a type does not take comes out as it is -/
theorem coerce_of_not_takes {a : Attribute} {v : Value} (hlist : v.asList? = none)
    (h : a.type.takes v = false) : standard.coerce a v = .ok v := by
  rw [AttributeType.takes_of_scalar a.type hlist] at h
  rw [coerce_of_scalar standard a hlist]
  obtain ⟨w, hw, hbrought⟩ | ⟨htakes, -⟩ := coerceScalar_cases a v
  · cases hbrought with
    | kept _ => exact hw
    | made _ htakes _ _ _ => cases htakes.symm.trans h
  · cases htakes.symm.trans h

/-- a value that comes out is accepted if the one that goes in is taken, and null if that is null -/
def Typed (a : Attribute) (v w : Value) : Prop :=
  a.type.accepts w = a.type.takes v ∧ (w = .null ↔ v = .null)

theorem typed_of_scalar {a : Attribute} {v w : Value} (hlist : v.asList? = none)
    (h : standard.coerce a v = .ok w) : Typed a v w := by
  rw [coerce_of_scalar standard a hlist] at h
  obtain ⟨w', hw, hbrought⟩ | ⟨-, fault, hfault⟩ := coerceScalar_cases a v
  · cases hw.symm.trans h
    cases hbrought with
    | kept htype =>
      refine ⟨?_, Iff.rfl⟩
      rw [a.type.accepts_of_scalar hlist, a.type.takes_of_scalar hlist, htype]
    | made hv htakes hw hnull hlist' =>
      refine ⟨?_, iff_of_false hnull hv⟩
      rw [a.type.accepts_of_scalar hlist', a.type.takes_of_scalar hlist, hw, htakes]
  · cases hfault.symm.trans h

mutual

theorem typed_of_coerce {a : Attribute} :
    ∀ {v w : Value}, standard.coerce a v = .ok w → Typed a v w
  | .list items, w, h => by
    obtain ⟨ws, hws, rfl⟩ := map_eq_ok.mp h
    exact ⟨accepts_of_coerceAll hws, iff_of_false nofun nofun⟩
  | .null, _, h | .boolean _, _, h | .integer _, _, h | .float _, _, h | .string _, _, h
  | .date _, _, h | .datetime _, _, h | .time _, _, h | .uuid _, _, h | .decimal _, _, h
  | .member _ _, _, h => typed_of_scalar rfl h

theorem accepts_of_coerceAll {a : Attribute} :
    ∀ {vs ws : List Value}, standard.coerceAll a vs = .ok ws →
      a.type.acceptsAll ws = a.type.takesAll vs
  | [], _, h => by
    cases h
    rfl
  | v :: rest, _, h => by
    obtain ⟨w, hw, h⟩ := bind_eq_ok.mp h
    obtain ⟨others, hothers, rfl⟩ := map_eq_ok.mp h
    rw [AttributeType.acceptsAll, AttributeType.takesAll, (typed_of_coerce hw).1,
      accepts_of_coerceAll hothers]

end

end Coercions

end NestedQuery
