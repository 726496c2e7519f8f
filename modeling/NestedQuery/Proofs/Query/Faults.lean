import NestedQuery.Proofs.Plan.Acceptance
import NestedQuery.Proofs.Query.Prefixes

/-!
# Faults of a text

Whatever stops a text from being read and planned lies in its form or in its meaning.

* `Error.BlamesQuery`            the form or the meaning of a query is at fault;
* `Error.OfLine.blamesQuery`     so it is with faults of a line;
* `Query.failsOnly_ofText`       and with errors of the reader;
* `Query.Resolved.failsOnly_ofQuery`   and with errors of planning.
-/

namespace NestedQuery

/-- the form or the meaning of a query is at fault -/
def Error.BlamesQuery (e : Error) : Prop := e.category = .lex ∨ e.category = .semantic

theorem Error.BlamesQuery.isClient {e : Error} (h : e.BlamesQuery) : e.isClient = true := by
  rw [Error.isClient]
  rcases h with h | h <;> rw [h]

theorem Error.OfLine.blamesQuery {e : Error} (h : e.OfLine) : e.BlamesQuery := by
  cases e with
  | strayLine | missingRoot => exact .inl rfl
  | filter line text fault =>
    cases fault with
    | malformed => exact .inl rfl
    | unsuitedLiteral | orderedBoolean | mixedList | mixedSelectors | mixedLiterals =>
      exact .inr rfl
  | unknownModel | unknownAttribute | unknownRelationship | invalidCast => exact .inr rfl
  | unterminatedBlock | unexpectedToken | unexpectedEnd | misplacedSelector | typeMismatch
  | invalidLiteral | unboundAlias | unrelatedColumn | unknownColumn | danglingSlot | schema
  | unreadableFixture | misshapenFixture | nestedObject | rejectedRow | invalidConfig => cases h

/-! ## reading -/

theorem Query.failsOnly_ofText (s : Schema) (text : String) :
    FailsOnly Error.BlamesQuery (ofText s text) := by
  intro e he
  rcases ofText_eq_error_iff.mp he with h | ⟨model, outer, -, rfl⟩
  · rcases Schema.blocksAfter_eq_error h with ⟨-, rfl⟩ | hline | hmisplaced
    · exact .inl rfl
    · exact hline.blamesQuery
    · cases hmisplaced
      exact .inl rfl
  · exact .inl rfl

/-! ## planning -/

theorem PlacedTerm.Offends.blamesQuery {c : Coercions} {t : PlacedTerm} {e : Error}
    (h : t.Offends c e) : e.BlamesQuery := by
  rcases h.kinds with ⟨_, _, _, rfl⟩ | ⟨_, _, rfl⟩ | ⟨_, _, rfl⟩
  · exact .inr rfl
  · exact .inr rfl
  · exact .inr rfl

theorem Query.Resolved.failsOnly_ofQuery {s : Schema} {q : Query} (h : q.Resolved s)
    (c : Coercions) : FailsOnly Error.BlamesQuery (Plan.ofQuery s c q) := by
  intro e he
  have hjudges := h.judges_ofQuery (c := c)
  rw [he] at hjudges
  obtain ⟨before, t, after, -, -, ht⟩ := hjudges
  exact ht.blamesQuery

end NestedQuery
