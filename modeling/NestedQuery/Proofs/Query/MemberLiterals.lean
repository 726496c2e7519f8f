import NestedQuery.Database
import NestedQuery.Proofs.Coercion.Standard
import NestedQuery.Proofs.Query.Answers

/-!
# Literals for members of an enumeration

A document has the underlying value of a member.  As a literal in a filter, a string is the name of
a member first, and the value of one only if no member has that name.  So a row is found by the
value that its document has, unless the value is the name of another member with another value.

* `Value.Plain`             strings and integers;
* `ReadsBack`               no other member takes the place of those with a value;
* `NamedFirst`              a member's name stands for that member;
* `Coercion.toMember_of_plain`   the member that a value is read as;
* `Query.submit_member`     the rows that the query with such a literal answers with;
* `Doors.shut_unmatched`    a row that is not found by the value in its document.
-/

namespace NestedQuery

/-! ## plain values -/

/-- strings and integers -/
inductive Value.Plain : Value → Prop
  | string (s : String) : Plain (.string s)
  | integer (n : Int64) : Plain (.integer n)

namespace Value.Plain
variable {v w : Value}

theorem same_iff (h : v.Plain) : w.same v = true ↔ w = v := by
  cases h <;> cases w <;> simp [same]

theorem compare?_eq_iff (hv : v.Plain) (hw : w.Plain) : v.compare? w = some .eq ↔ w = v := by
  cases hv with
  | string s =>
    cases hw with
    | string t =>
      show some (compare s t) = _ ↔ _
      rw [Option.some.injEq, compare_eq_iff_eq, string.injEq, eq_comm]
    | integer n => exact iff_of_false nofun nofun
  | integer m =>
    cases hw with
    | string t => exact iff_of_false nofun nofun
    | integer n =>
      show some (compare m.toInt n.toInt) = _ ↔ _
      rw [Option.some.injEq, compare_eq_iff_eq, Int64.toInt_inj, integer.injEq, eq_comm]

/-- a literal is written in a document like a plain value only if it has that value -/
theorem eq_value_of_document (hv : v.Plain) {x : Literal} (h : x.value.document = v.document) :
    x.value = v := by
  cases hv with
  | string s =>
    cases x with
    | string s' =>
      cases h
      rfl
    | integer _ | boolean _ | list _ => cases h
  | integer n =>
    cases x with
    | integer n' => exact congrArg Value.integer (Int64.toInt_inj.mp (Json.integer.inj h))
    | string _ | boolean _ | list _ => cases h

end Value.Plain

/-! ## reading a value as a member -/

/-- a value is not the name of a member with another value -/
def ReadsBack (members : Dict Value) (v : Value) : Prop :=
  ∀ s w, v = .string s → members.get? s = some w → w = v

/-- where a value is the name of a member, it stands for the member of that name -/
def NamedFirst (members : Dict Value) (v : Value) (other : String) : Prop :=
  ∀ s w, v = .string s → members.get? s = some w → other = s

namespace Coercion
variable {members : Dict Value} {v : Value}

theorem memberValued?_of_plain (hv : v.Plain) {name : String}
    (h : members.get? name = some v) :
    ∃ other, memberValued? members v = some (.member other v) ∧ members.get? other = some v := by
  rw [memberValued?]
  cases hfind : members.entries.find? fun e => e.2.same v with
  | none =>
    have hne := List.find?_eq_none.mp hfind (name, v) (Dict.mem_entries_iff.mpr h)
    exact absurd (hv.same_iff.mpr rfl) hne
  | some e =>
    have he := hv.same_iff.mp (List.find?_eq_some_iff_append.mp hfind).1
    refine ⟨e.1, by rw [Option.map_some, he], ?_⟩
    rw [← he]
    exact Dict.mem_entries_iff.mp (List.mem_of_find?_eq_some hfind)

/-- the value of a member is read as a member, the one that has the value for its name if there is
one, and one with the same value if it reads back -/
theorem toMember_of_plain (hv : v.Plain) {name : String} (h : members.get? name = some v) :
    ∃ other w, toMember (.enum members) v = .ok (.member other w) ∧
      members.get? other = some w ∧ NamedFirst members v other ∧
      (w = v ↔ ReadsBack members v) := by
  obtain ⟨other, hvalued, hother⟩ := memberValued?_of_plain hv h
  cases hv with
  | integer n =>
    refine ⟨other, _, ?_, hother, nofun, iff_of_true rfl nofun⟩
    rw [toMember, hvalued]
    rfl
  | string s =>
    cases hs : members.get? s with
    | none =>
      have hunnamed (s' : String) (w : Value) (hs' : Value.string s = .string s')
          (hw : members.get? s' = some w) : False := by
        cases hs'
        cases hs.symm.trans hw
      refine ⟨other, _, ?_, hother, fun s' w hs' hw => (hunnamed s' w hs' hw).elim,
        iff_of_true rfl fun s' w hs' hw => (hunnamed s' w hs' hw).elim⟩
      rw [toMember, memberNamed?, hs, hvalued]
      rfl
    | some w =>
      refine ⟨s, w, ?_, hs, fun s' w' hs' _ => Value.string.inj hs', fun hw s' w' hs' hw' => ?_,
        fun hback => hback s w rfl hs⟩
      · rw [toMember, memberNamed?, hs]
        rfl
      · cases hs'
        cases hs.symm.trans hw'
        exact hw

end Coercion

section
variable {a : Attribute} {members : Dict Value} (htype : a.type = .enum members)
include htype

/-- under the standard coercions the value of a member stands for a member -/
theorem literalValue_of_plain {v : Value} (hv : v.Plain) {name : String}
    (h : members.get? name = some v) {x : Literal} (hx : x.value = v) :
    ∃ other w, literalValue .standard a x = .ok (.member other w) ∧
      members.get? other = some w ∧ NamedFirst members v other ∧
      (w = v ↔ ReadsBack members v) := by
  obtain ⟨other, w, hmember, hother, hnamed, hw⟩ := Coercion.toMember_of_plain hv h
  refine ⟨other, w, ?_, hother, hnamed, hw⟩
  have hkey : Coercions.standard.byKey.get? a.type.key = some Coercion.toMember := by
    rw [htype]
    rfl
  have hcoerce : Coercions.standard.coerce a v = .ok (.member other w) := by
    have hscalar : v.asList? = none := by cases hv <;> rfl
    rw [Coercions.coerce_of_scalar _ a hscalar, Coercions.coerceScalar, hkey, htype]
    simp only [hmember]
  rw [literalValue, hx, hcoerce, bind_ok, htype]
  rfl

end

/-! ## rows with members -/

/-- the term that compares a row's own value with a literal -/
def Literal.equalling (x : Literal) : Term := ⟨.star, .eq, x⟩

/-- the query for the rows of a model whose attribute equals a literal -/
def Query.equalling (model : String) (a : Attribute) (x : Literal) : Query :=
  ⟨model, [.attribute a (some (.term x.equalling))]⟩

section
variable {st : Store} {c : Coercions} {model : String} {a : Attribute} {x : Literal}

theorem Query.resolved_equalling (ha : st.schema.attribute? model a.name = some a) :
    (Query.equalling model a x).Resolved st.schema := by
  obtain ⟨m, hm, -⟩ := Option.bind_eq_some_iff.mp ha
  exact ⟨⟨m, hm⟩, .attr _ ha (.nil _)⟩

theorem Plan.ofQuery_equalling (ha : st.schema.attribute? model a.name = some a) {v : Value}
    (hv : literalValue c a x = .ok v) :
    ∃ p, Plan.ofQuery st.schema c (.equalling model a x) = .ok p := by
  obtain ⟨m, hm, hget⟩ := Option.bind_eq_some_iff.mp ha
  have hattribute : st.schema.attributeOf model a.name = .ok a := by
    rw [Schema.attributeOf, Schema.modelNamed_of_some hm, bind_ok, hget]
  have hpredicate : Scope.predicate ⟨⟨model, 0⟩, [], none⟩ c a (.term x.equalling) =
      .ok (.compare (.bound ⟨model, 0⟩ a.name) .eq v) :=
    Scope.termPredicate_eq_ok_iff.mpr ⟨v, _, hv, .star (.inl rfl), rfl⟩
  have hfilter : filterDirectives st.schema c ⟨⟨model, 0⟩, [], none⟩ a (some (.term x.equalling)) =
      .ok [.filter (.compare (.bound ⟨model, 0⟩ a.name) .eq v)] := by
    rw [filterDirectives, hattribute, bind_ok]
    dsimp only
    rw [hpredicate, map_ok]
  refine ⟨⟨model, ⟨model, 0⟩, [.filter (.compare (.bound ⟨model, 0⟩ a.name) .eq v)]⟩, ?_⟩
  rw [ofQuery, Query.equalling, Schema.modelNamed_of_some hm, bind_ok]
  dsimp only [planMembers, planMember]
  rw [hfilter]
  rfl

theorem Query.matches_equalling_iff {t : RowTree} :
    (Query.equalling model a x).Matches st c t ↔ t.row ∈ st.rows model ∧ t.inner = [] ∧
      x.equalling.truth st c a ⟨t.row, none⟩ = some true := by
  constructor
  · rintro ⟨hroot, hmembers⟩
    generalize t.inner = ts at hmembers
    cases hmembers with
    | filtered hf hrest =>
      cases hrest
      exact ⟨hroot, rfl, hf⟩
  · rintro ⟨hroot, hinner, hf⟩
    refine ⟨hroot, ?_⟩
    rw [hinner]
    exact .filtered hf (.nil _)

/-- the query answers with the rows of which its term is definitely true -/
theorem Query.submit_equalling (hs : st.schema.Sound)
    (ha : st.schema.attribute? model a.name = some a) {v : Value}
    (hv : literalValue c a x = .ok v) :
    ∃ p bs g, Plan.ofQuery st.schema c (.equalling model a x) = .ok p ∧
      st.bindings p = .ok bs ∧ st.submit p = .ok g ∧ ∀ row ∈ st.rows model,
        ([(0, row)] ∈ bs ↔ x.equalling.truth st c a ⟨row, none⟩ = some true) ∧
        (x.equalling.truth st c a ⟨row, none⟩ = some true →
          ∃ n ∈ g.roots, ∃ o, g.object? n = some o ∧ o.StandsFor st.schema row) := by
  obtain ⟨p, hp⟩ := Plan.ofQuery_equalling ha hv
  have hr := Query.resolved_equalling (x := x) ha
  obtain ⟨g, slot, hsubmit, hg, -⟩ := Query.exists_roots hs hr hp
  refine ⟨p, _, g, hp, Store.bindings_eq hr hp, hsubmit, fun row hrow => ?_⟩
  have hmatches (h : x.equalling.truth st c a ⟨row, none⟩ = some true) :
      (Query.equalling model a x).Matches st c (.node row []) :=
    Query.matches_equalling_iff.mpr ⟨hrow, rfl, h⟩
  refine ⟨⟨fun h => ?_, fun h => ?_⟩, fun h => ?_⟩
  · obtain ⟨t, ht, hbinding⟩ := List.mem_map.mp h
    obtain ⟨-, hinner, htruth⟩ :=
      Query.matches_equalling_iff.mp ((Query.mem_kept_iff hr hp).mp ht)
    cases t with
    | node own inner =>
      cases hinner
      cases hbinding
      exact htruth
  · exact List.mem_map.mpr ⟨_, (Query.mem_kept_iff hr hp).mpr (hmatches h), rfl⟩
  · exact ⟨slot row, (hg.roots _).mpr ⟨_, hmatches h, rfl⟩, hg.standsFor (hmatches h).binds_row⟩

end

/-- a stored row with a member of an enumeration, and the value of the member as a document shows
it, taken for a literal: below any block where the row's own value may be compared, and in the query
for the rows that equal the literal, the row is found unless the value is the name of another
member with another value.  Where the value is the name of a member, the literal stands for the
member of that name. -/
theorem Query.submit_member {st : Store} (hs : st.schema.Built) {model : String} {a : Attribute}
    (ha : st.schema.attribute? model a.name = some a) {members : Dict Value}
    (htype : a.type = .enum members) (hplain : ∀ n w, members.get? n = some w → w.Plain)
    {row : StoredRow} (hrow : row ∈ st.rows model) {name : String} {v : Value}
    (hmember : members.get? name = some v) (hheld : row.value a.name = .member name v)
    {x : Literal} (hx : x.value.document = (row.value a.name).document) :
    (∃ other w, literalValue .standard a x = .ok (.member other w) ∧
      members.get? other = some w ∧ NamedFirst members v other ∧
      (w = v ↔ ReadsBack members v)) ∧
    (∀ scope : Scope, scope.setting.Admits .star →
      ∃ p, scope.predicate .standard a (.term x.equalling) = .ok p ∧
        ∀ b related, b.row scope.bound = .ok row →
          ∃ t, p.truth st b related = .ok t ∧ (t = some true ↔ ReadsBack members v)) ∧
    ∃ p bs g, Plan.ofQuery st.schema .standard (.equalling model a x) = .ok p ∧
      st.bindings p = .ok bs ∧ st.submit p = .ok g ∧
      ([(0, row)] ∈ bs ↔ ReadsBack members v) ∧
      (ReadsBack members v →
        ∃ n ∈ g.roots, ∃ o, g.object? n = some o ∧ o.StandsFor st.schema row) := by
  have hv := hplain name v hmember
  have hvalue : x.value = v := hv.eq_value_of_document (by rw [hx, hheld, Value.document])
  obtain ⟨other, w, hliteral, hother, hnamed, hw⟩ := literalValue_of_plain htype hv hmember hvalue
  -- both members are compared by their values
  have htruth : Comparison.truth .eq (row.value a.name) (.member other w) = some true ↔
      ReadsBack members v := by
    rw [hheld, ← hw, ← hv.compare?_eq_iff (hplain other w hother)]
    show (v.compare? w).map Comparison.eq.suits = some true ↔ _
    cases v.compare? w with
    | none => exact iff_of_false nofun nofun
    | some o => cases o <;> decide
  refine ⟨⟨other, w, hliteral, hother, hnamed, hw⟩, fun scope hadmits => ?_, ?_⟩
  · refine ⟨_, Scope.termPredicate_eq_ok_iff.mpr ⟨_, _, hliteral, .star hadmits, rfl⟩,
      fun b related hb => ?_⟩
    rw [Scope.truth_own, hb, map_ok]
    exact ⟨_, rfl, htruth⟩
  · obtain ⟨p, bs, g, hp, hbs, hsubmit, hanswers⟩ := Query.submit_equalling hs.sound ha hliteral
    obtain ⟨hbound, hroot⟩ := hanswers row hrow
    have hterm : x.equalling.truth st .standard a ⟨row, none⟩ = some true ↔
        ReadsBack members v := by
      rw [Term.truth, Literal.equalling, hliteral]
      exact htruth
    exact ⟨p, bs, g, hp, hbs, hsubmit, hbound.trans hterm, fun h => hroot (hterm.mpr h)⟩

/-! ## doors -/

namespace Doors

/-- one member has the value that is the name of the other one -/
def states : Dict Value := Dict.ofList [("open", .string "shut"), ("shut", .string "locked")]

def declaration : Declaration :=
  ((Declaration.named "Door").addKeyColumn "id").addAttribute "state" (.enum states)

def schema : Schema := (Schema.ofDeclarations [declaration]).toOption.getD .empty

theorem ofDeclarations_eq : Schema.ofDeclarations [declaration] = .ok schema := by cbv

theorem built : schema.Built := by
  refine ⟨[declaration], fun d hd => ?_, ofDeclarations_eq⟩
  cases List.mem_singleton.mp hd
  exact .addAttribute _ _ (.addKeyColumn _ (.named _))

def door (id : Int64) (state : Value) : Row := Dict.ofList [("id", .integer id), ("state", state)]

def openDoor : Row := door 1 (.member "open" (.string "shut"))

def shutDoor : Row := door 2 (.member "shut" (.string "locked"))

def store : Store :=
  ((Store.empty schema).insertAll [("Door", openDoor), ("Door", shutDoor)]).toOption.getD
    (.empty schema)

theorem schema_store : store.schema = schema := by cbv

theorem built_store : store.schema.Built := schema_store ▸ built

def database : Database := ⟨store, .standard⟩

def document (id : Int) (state : String) : Json :=
  .object [("id", .integer id), ("state", .string state)]

/-- the open door is shown with the value `shut`, by which the other door is found -/
theorem shut_unmatched :
    store.schema.Built ∧ states.get? "open" = some (.string "shut") ∧
      Row.value openDoor "state" = .member "open" (.string "shut") ∧
      store.rowsOf "Door" = [⟨"Door", 0, openDoor⟩, ⟨"Door", 1, shutDoor⟩] ∧
      database.document "query Door \x7b\n\x7d" =
        .ok (.array [document 1 "shut", document 2 "locked"]) ∧
      database.document "query Door \x7b\n state [* == 'shut']\n\x7d" =
        .ok (.array [document 2 "locked"]) :=
  ⟨built_store, by cbv, by cbv, by cbv, by cbv, by cbv⟩

def state : Attribute := ⟨"Door", "state", .enum states⟩

theorem plain {n : String} {w : Value} (h : states.get? n = some w) : w.Plain := by
  have hmem : (n, w) ∈ [("open", Value.string "shut"), ("shut", .string "locked")] :=
    Dict.mem_entries_iff.mpr h
  rcases List.mem_cons.mp hmem with he | hmem
  · cases he
    exact .string _
  · cases List.mem_singleton.mp hmem
    exact .string _

theorem rows_eq :
    store.rows "Door" = [⟨"Door", 0, openDoor⟩, ⟨"Door", 1, shutDoor⟩] := by cbv

theorem attribute_eq : store.schema.attribute? "Door" state.name = some state := by cbv

/-- the shut door is found by its value, which is no name; the value of the open door stands for the
shut one -/
theorem submit_member_doors :
    store.schema.Built ∧ ReadsBack states (.string "locked") ∧
      (∃ p bs g, Plan.ofQuery store.schema .standard
          (.equalling "Door" state (.string "locked")) = .ok p ∧
        store.bindings p = .ok bs ∧ store.submit p = .ok g ∧
        ([(0, ⟨"Door", 1, shutDoor⟩)] ∈ bs ↔ ReadsBack states (.string "locked")) ∧
        (ReadsBack states (.string "locked") → ∃ n ∈ g.roots, ∃ o,
          g.object? n = some o ∧ o.StandsFor store.schema ⟨"Door", 1, shutDoor⟩)) ∧
      ∃ w, literalValue .standard state (.string "shut") = .ok (.member "shut" w) ∧
        states.get? "shut" = some w ∧
        (w = .string "shut" ↔ ReadsBack states (.string "shut")) := by
  have hback : ReadsBack states (.string "locked") := by
    intro s w hs hw
    cases hs
    cases hw
  have hopen : states.get? "open" = some (.string "shut") := by cbv
  have hshut : states.get? "shut" = some (.string "locked") := by cbv
  have hopenHeld : (⟨"Door", 0, openDoor⟩ : StoredRow).value state.name =
      .member "open" (.string "shut") := by cbv
  have hshutHeld : (⟨"Door", 1, shutDoor⟩ : StoredRow).value state.name =
      .member "shut" (.string "locked") := by cbv
  have hopenRow : (⟨"Door", 0, openDoor⟩ : StoredRow) ∈ store.rows "Door" := by
    rw [rows_eq]
    exact List.mem_cons_self
  have hshutRow : (⟨"Door", 1, shutDoor⟩ : StoredRow) ∈ store.rows "Door" := by
    rw [rows_eq]
    exact List.mem_cons_of_mem _ (List.mem_singleton_self _)
  have hfound := Query.submit_member built_store attribute_eq rfl (fun _ _ => plain) hshutRow hshut
    hshutHeld (x := .string "locked") (by rw [hshutHeld]; rfl)
  obtain ⟨⟨other, w, hliteral, hother, hnamed, hw⟩, -⟩ := Query.submit_member built_store
    attribute_eq rfl (fun _ _ => plain) hopenRow hopen hopenHeld (x := .string "shut")
    (by rw [hopenHeld]; rfl)
  cases hnamed "shut" _ rfl hshut
  exact ⟨built_store, hback, hfound.2.2, w, hliteral, hother, hw⟩

end Doors

end NestedQuery
