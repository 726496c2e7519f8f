import NestedQuery.Proofs.Calendar.Texts
import NestedQuery.Proofs.Fixture.Rows
import NestedQuery.Proofs.Plan.Acceptance
import NestedQuery.Proofs.Uuid
import NestedQuery.Proofs.Value.Ordering

/-!
# Values that documents spell out

Dates, times, points of time and identifiers stand in documents as strings.  Such a string is good
for a literal of a filter and for a column of a fixture: the standard coercions make of it the value
that was shown.

* `AttributeType.isSpelled`   the types of such values;
* `Value.Readable`            points of time have to be in a year of four digits;
* `Coercions.RestoredFrom`    a string that a value is shown as, and read from;
* `Coercions.restoredFrom_document`   all values of these types are read back;
* `Instants.restoredFrom_document_last`   a leap second at the end of the last year.
-/

namespace NestedQuery

/-- types of values that documents show as strings of a form of their own -/
def AttributeType.isSpelled : AttributeType → Bool
  | date => true
  | datetime => true
  | time => true
  | uuid => true
  | _ => false

/-- RFC 3339 has years of four digits and no others -/
def Value.Readable : Value → Prop
  | datetime t => 0 ≤ t.date.year ∧ t.date.year ≤ 9999
  | _ => True

namespace Value

/-- a scalar of a type that is spelled, with its text -/
inductive Spelled : AttributeType → Value → List Char → Prop
  | date (d : Date) : Spelled .date (.date d) d.text
  | time (t : TimeOfDay) : Spelled .time (.time t) t.text
  | uuid (u : Uuid) : Spelled .uuid (.uuid u) u.text
  | datetime (t : Timestamp) (h : 0 ≤ t.date.year ∧ t.date.year ≤ 9999) :
      Spelled .datetime (.datetime t) t.text

theorem exists_spelled {type : AttributeType} {v : Value} (htype : type.isSpelled = true)
    (hlist : v.asList? = none) (haccepts : type.accepts v = true) (hv : v.Readable) :
    ∃ text, Spelled type v text := by
  rw [AttributeType.accepts_of_scalar type hlist] at haccepts
  cases type with
  | date =>
    cases v with
    | date d => exact ⟨d.text, .date d⟩
    | _ => cases haccepts
  | datetime =>
    cases v with
    | datetime t => exact ⟨t.text, .datetime t hv⟩
    | _ => cases haccepts
  | time =>
    cases v with
    | time t => exact ⟨t.text, .time t⟩
    | _ => cases haccepts
  | uuid =>
    cases v with
    | uuid u => exact ⟨u.text, .uuid u⟩
    | _ => cases haccepts
  | _ => cases htype

end Value

namespace Coercions

/-- a string that a document shows for a value of an attribute, and that may be put in its place:
it is coerced to an equal value, as a literal of a filter and as a column of a fixture too -/
structure RestoredFrom (a : Attribute) (v : Value) (text : String) : Prop where
  document : v.document = .string text
  coerced : ∃ w, standard.coerce a (.string text) = .ok w ∧ w.compare? v = some .eq
  literal : literalValue .standard a (.string text) = .ok v
  column : ∀ (s : Schema) (model column : String), s.attribute? model column = some a →
    Fixture.columnOf s .standard model column v.document = .ok v

/-- it is enough that the coercion of the string is the value -/
theorem RestoredFrom.of_coerce {a : Attribute} {v : Value} {text : String}
    (hdocument : v.document = .string text) (hexact : v.Exact) (hnull : v.underlying ≠ .null)
    (haccepts : a.type.accepts v = true) (h : standard.coerce a (.string text) = .ok v) :
    RestoredFrom a v text where
  document := hdocument
  coerced := ⟨v, h, Value.compare?_self hexact hnull⟩
  literal := literalValue_eq_ok_iff.mpr ⟨h, haccepts⟩
  column s model column ha := by
    rw [hdocument]
    exact Fixture.columnOf_eq_ok_iff.mpr ⟨a, .string text, ha, rfl, h⟩

/-- a coercion that reads what is printed -/
theorem coerce_ofList {ε α : Type} {a : Attribute} {read : List Char → Except ε α}
    {fault : ε → Coercion.Fault} {make : α → Value} {text : List Char} {x : α}
    (hcoercer : standard.byKey.get? a.type.key = some (Coercion.ofStrings read fault make))
    (hread : read text = .ok x) :
    standard.coerce a (.string (String.ofList text)) = .ok (make x) := by
  show standard.coerceScalar a _ = _
  simp only [coerceScalar, hcoercer, Coercion.ofStrings, String.toList_ofList, hread]

theorem restoredFrom_of_spelled {a : Attribute} {v : Value} {text : List Char}
    (h : Value.Spelled a.type v text) : RestoredFrom a v (String.ofList text) := by
  obtain ⟨model, name, type⟩ := a
  cases h with
  | date d => exact .of_coerce rfl trivial nofun rfl (coerce_ofList rfl d.ofText_text)
  | time t => exact .of_coerce rfl trivial nofun rfl (coerce_ofList rfl t.ofText_text)
  | uuid u => exact .of_coerce rfl trivial nofun rfl (coerce_ofList rfl u.ofText_text)
  | datetime t h =>
    exact .of_coerce rfl trivial nofun rfl (coerce_ofList rfl (Timestamp.ofText_text h))

/-- what documents show of dates, times, identifiers and points of time in a year of four digits is
read back -/
theorem restoredFrom_document {a : Attribute} {v : Value} (htype : a.type.isSpelled = true)
    (hlist : v.asList? = none) (haccepts : a.type.accepts v = true) (hv : v.Readable) :
    ∃ text, RestoredFrom a v text := by
  obtain ⟨text, htext⟩ := Value.exists_spelled htype hlist haccepts hv
  exact ⟨_, restoredFrom_of_spelled htext⟩

end Coercions

/-! ## instants -/

namespace Instants

def moment : Attribute := ⟨"Event", "moment", .datetime⟩

/-- the last instant that is read back, in a leap second -/
def last : Timestamp := ⟨⟨9999, 12, 31, by decide⟩, ⟨23, 59, 60, 999999999, by decide⟩⟩

theorem restoredFrom_document_last :
    moment.type.isSpelled = true ∧ moment.type.accepts (.datetime last) = true ∧
      (Value.datetime last).Readable ∧
      (Value.datetime last).document = .string "9999-12-31T23:59:60.999999999+00:00" ∧
      ∃ text, Coercions.RestoredFrom moment (.datetime last) text :=
  have hyear : (Value.datetime last).Readable := show _ ∧ _ by decide
  ⟨rfl, rfl, hyear, by cbv, Coercions.restoredFrom_document rfl rfl rfl hyear⟩

end Instants

end NestedQuery
