import NestedQuery.Proofs.Fixture.Built
import NestedQuery.Proofs.Graph.Closed
import NestedQuery.Proofs.Query.Faults
import NestedQuery.Proofs.Store.Kept
import NestedQuery.Proofs.Text.Lines
import NestedQuery.Proofs.Text.Offsets
import NestedQuery.Service.Exchange

/-!
# Queries to a service

A service that has loaded a fixture answers any text with a document or blames the text, as long as
the text is not too long for it and the keys that are stored have texts.  What planning, joining,
filtering and the document of a graph refuse does not come from a text.

* `Store.exists_document`        the plan of a query has a document, whatever is stored;
* `Store.keysHaveTexts`          no key that is stored keeps a query from its end;
* `Database.outcome_cases`       a query is given up, has a document or blames the text;
* `Fixture.status_eq_500_iff`    the service is at fault just for queries that are given up;
* `Fixture.document_or_blame`    a text has a document, or its form or its meaning is at fault;
* `Ring.blanks_refused`          a body that is not taken.
-/

namespace NestedQuery

/-- the plan of a query has a document, whatever is stored -/
theorem Store.exists_document {st : Store} {c : Coercions} {q : Query} {p : Plan}
    (hs : st.schema.Sound) (hq : q.Resolved st.schema) (hp : Plan.ofQuery st.schema c q = .ok p) :
    ∃ doc, (st.submit p).bind Graph.document = .ok doc := by
  obtain ⟨g, slot, hsubmit, hg⟩ := Query.exists_populates hs hq hp
  rw [hsubmit, bind_ok]
  exact hg.closed.document

namespace Database

/-- a text that is read and planned has a document -/
theorem exists_document {d : Database} (hs : d.schema.Sound) {text : String} {p : Plan}
    (h : d.plan text = .ok p) : ∃ doc, d.document text = .ok doc := by
  obtain ⟨q, hq, hp⟩ := bind_eq_ok.mp h
  obtain ⟨doc, hdoc⟩ := Store.exists_document hs (Query.resolved_of_ofText hs hq) hp
  refine ⟨doc, ?_⟩
  rw [document, graph, h, bind_ok]
  exact hdoc

/-- only a text that is not read or not planned has no document -/
theorem failsOnly_document {d : Database} (hs : d.schema.Sound) (text : String) :
    FailsOnly Error.BlamesQuery (d.document text) := by
  intro e he
  cases hp : d.plan text with
  | ok p =>
    obtain ⟨doc, hdoc⟩ := exists_document hs hp
    rw [hdoc] at he
    cases he
  | error e' =>
    rw [document, graph, hp] at he
    cases he
    have hplan : FailsOnly Error.BlamesQuery (d.plan text) :=
      (Query.failsOnly_ofText d.schema text).bind fun q hq =>
        (Query.resolved_of_ofText hs hq).failsOnly_ofQuery d.coercions
    exact hplan _ hp

/-- a query is given up, or it has a document, or the text is at fault -/
theorem outcome_cases {d : Database} (hs : d.schema.Sound) (text : String) :
    d.outcome? text = none ∨ (∃ doc, d.outcome? text = some (.ok doc)) ∨
      ∃ e, d.outcome? text = some (.error e) ∧ e.BlamesQuery := by
  rw [outcome?]
  split
  · exact .inl rfl
  · cases hdoc : d.document text with
    | ok doc => exact .inr (.inl ⟨doc, rfl⟩)
    | error e => exact .inr (.inr ⟨e, rfl, failsOnly_document hs text e hdoc⟩)

end Database

/-! ## keys that are stored -/

/-- the keys of all stored rows have texts -/
def Store.keysHaveTexts (st : Store) : Bool :=
  st.tables.entries.all fun e => e.2.all fun row => st.schema.tells e.1 row

theorem Store.tells_of_mem {st : Store} (h : st.keysHaveTexts = true) {r : StoredRow}
    (hr : r ∈ st.rowsOf r.model) : st.schema.tells r.model r.row = true := by
  have hrow : r.row ∈ st.table r.model := row_mem_of_stored hr
  cases htable : st.tables.get? r.model with
  | none =>
    rw [table, htable] at hrow
    cases hrow
  | some rows =>
    rw [table, htable] at hrow
    exact List.all_eq_true.mp (List.all_eq_true.mp h _ (Dict.mem_entries_iff.mpr htable)) _ hrow

/-- a plan whose rows have keys with texts is not given up -/
theorem Store.breaksOff_eq_false {st : Store} (h : st.keysHaveTexts = true) (p : Plan) :
    st.breaksOff p = false := by
  rw [breaksOff]
  split
  · rename_i hbs
    refine List.any_eq_false.mpr fun b hb => ?_
    rw [Bool.not_eq_true]
    refine List.any_eq_false.mpr fun r hr => ?_
    obtain ⟨a, -, hlookup⟩ := List.mem_filterMap.mp hr
    obtain ⟨before, after, he, -⟩ := List.lookup_eq_some_iff.mp hlookup
    have hmem : (a.index, r) ∈ b := he ▸ List.mem_append_right _ List.mem_cons_self
    have hstored : r ∈ st.rowsOf r.model := storedIn_bindings hbs b hb _ hmem
    rw [tells_of_mem h hstored]
    exact Bool.false_ne_true
  · rfl

theorem Database.outcome?_eq {d : Database} (h : d.store.keysHaveTexts = true) (text : String) :
    d.outcome? text = some (d.document text) := by
  have hends : d.breaksOff text = false := by
    rw [breaksOff]
    cases d.plan text with
    | ok p => exact Store.breaksOff_eq_false h p
    | error e => rfl
  rw [outcome?, hends]
  rfl

/-! ## responses -/

/-- a request for the answer to a text -/
structure Request.Asks (r : Request) (text : String) : Prop where
  route : r.route = "/query"
  method : r.method = "POST"
  body : r.body = text

namespace Request.Asks
variable {r : Request} {text : String} (h : r.Asks text) (d : Database)
include h

theorem respond_eq :
    d.respond r = if bodyLimit < text.utf8ByteSize then .tooLong else d.answer text := by
  rw [Database.respond, h.route, h.method, ← h.body]
  rfl

theorem respond_of_le (hlength : text.utf8ByteSize ≤ bodyLimit) : d.respond r = d.answer text := by
  rw [h.respond_eq, if_neg (Nat.not_lt.mpr hlength)]

theorem respond_of_lt (hlength : bodyLimit < text.utf8ByteSize) : d.respond r = .tooLong := by
  rw [h.respond_eq, if_pos hlength]

end Request.Asks

namespace Fixture
variable {f : Fixture} {c : Coercions} {d : Database} (h : f.database c = .ok d)
include h

/-- with a loaded fixture the service is at fault for the queries that are given up, and for no
others -/
theorem status_eq_500_iff (text : String) :
    (d.answer text).status = 500 ↔ d.breaksOff text = true := by
  have hgiven : d.outcome? text = none ↔ d.breaksOff text = true := by
    rw [Database.outcome?]
    cases d.breaksOff text <;> simp
  rw [← hgiven, Database.answer]
  rcases Database.outcome_cases (built_of_database h).sound text with
    hnone | ⟨doc, hdoc⟩ | ⟨e, he, hblame⟩
  · simp [hnone]
  · simp [hdoc]
  · simp [he, hblame.isClient]

/-- with a loaded fixture whose keys have texts, any text has a document, which is the answer to
requests with that text, or an error that lies in the form or the meaning of the text, with which
such requests are refused; unless the text is longer than a body may be -/
theorem document_or_blame (hkeys : d.store.keysHaveTexts = true) (text : String) :
    ((∃ doc, d.outcome? text = some (.ok doc) ∧ (text.utf8ByteSize ≤ bodyLimit →
        ∀ r : Request, r.Asks text → d.respond r = ⟨200, doc.render⟩)) ∨
      ∃ e, d.outcome? text = some (.error e) ∧ (e.category = .lex ∨ e.category = .semantic) ∧
        (text.utf8ByteSize ≤ bodyLimit →
          ∀ r : Request, r.Asks text → d.respond r = ⟨400, (errorBody e).render⟩)) ∧
      (bodyLimit < text.utf8ByteSize →
        ∀ r : Request, r.Asks text → d.respond r = .tooLong) := by
  refine ⟨?_, fun hlength r hr => hr.respond_of_lt d hlength⟩
  rcases Database.outcome_cases (built_of_database h).sound text with
    hnone | ⟨doc, hdoc⟩ | ⟨e, he, hblame⟩
  · rw [Database.outcome?_eq hkeys] at hnone
    cases hnone
  · refine .inl ⟨doc, hdoc, fun hlength r hr => ?_⟩
    rw [hr.respond_of_le d hlength, Database.answer, hdoc]
  · refine .inr ⟨e, he, hblame, fun hlength r hr => ?_⟩
    rw [hr.respond_of_le d hlength, Database.answer, he]
    show Response.mk (if e.isClient then 400 else 500) _ = _
    rw [if_pos hblame.isClient]

end Fixture

namespace Ring

/-- the three steps as they are written, with a relationship to the step after each -/
def fixture : Fixture where
  models := [{
    name := "Step"
    primaryKey := ["id"]
    attributes := .ofList [("id", .named "string"), ("after", .named "string")]
    relationships := .ofList [("next", ⟨"Step", .one, "after", "id"⟩)]
    parent := none }]
  rows := .ofList [("Step", [.ofList [("id", .string "a"), ("after", .string "b")],
    .ofList [("id", .string "b"), ("after", .string "c")],
    .ofList [("id", .string "c"), ("after", .string "a")]])]

def loaded : Database := (fixture.database .standard).toOption.getD (.empty .empty)

theorem database_eq : fixture.database .standard = .ok loaded := by cbv

/-- the objects refer to each other in a circle, and there is a document nevertheless -/
theorem document_or_blame_ring :
    fixture.database .standard = .ok loaded ∧ loaded.store.keysHaveTexts = true ∧
      nextText.utf8ByteSize ≤ bodyLimit ∧
      ((∃ doc, loaded.outcome? nextText = some (.ok doc) ∧
          ∀ r : Request, r.Asks nextText → loaded.respond r = ⟨200, doc.render⟩) ∨
        ∃ e, loaded.outcome? nextText = some (.error e) ∧
          (e.category = .lex ∨ e.category = .semantic) ∧
          ∀ r : Request, r.Asks nextText → loaded.respond r = ⟨400, (errorBody e).render⟩) := by
  have hkeys : loaded.store.keysHaveTexts = true := by cbv
  have hlength : nextText.utf8ByteSize ≤ bodyLimit := by decide
  refine ⟨database_eq, hkeys, hlength, ?_⟩
  rcases (Fixture.document_or_blame database_eq hkeys nextText).1 with
    ⟨doc, hdoc, hrespond⟩ | ⟨e, he, hblame, hrespond⟩
  · exact .inl ⟨doc, hdoc, hrespond hlength⟩
  · exact .inr ⟨e, he, hblame, hrespond hlength⟩

/-- nothing but blanks -/
def blanks (n : Nat) : String := String.ofList (List.replicate n ' ')

theorem utf8ByteSize_blanks (n : Nat) : (blanks n).utf8ByteSize = n := by
  have hascii : ∀ c ∈ List.replicate n ' ', c.utf8Size = 1 := by
    intro c hc
    rw [List.eq_of_mem_replicate hc]
    rfl
  rw [← Text.byteLength_toList, blanks, String.toList_ofList, Text.byteLength_of_ascii hascii,
    List.length_replicate]

/-- with one blank more than a body may have, the service neither has a document nor blames the
text -/
theorem blanks_refused :
    fixture.database .standard = .ok loaded ∧
      loaded.respond ⟨"POST", "/query", blanks 0x200001⟩ =
        ⟨413, "Failed to buffer the request body: length limit exceeded"⟩ := by
  have hroute (text : String) : (Request.mk "POST" "/query" text).route = "/query" := by
    show Request.route ⟨"", "/query", ""⟩ = _
    cbv
  have hlength : bodyLimit < (blanks 0x200001).utf8ByteSize := by
    rw [utf8ByteSize_blanks]
    decide
  have hasks (text : String) : (Request.mk "POST" "/query" text).Asks text :=
    ⟨hroute text, rfl, rfl⟩
  exact ⟨database_eq, (hasks _).respond_of_lt loaded hlength⟩

end Ring

end NestedQuery
