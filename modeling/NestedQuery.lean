import NestedQuery.Main
import NestedQuery.Proofs.Coercion.Documents
import NestedQuery.Proofs.Fixture.Rows
import NestedQuery.Proofs.Graph.Distinct
import NestedQuery.Proofs.Graph.Keys
import NestedQuery.Proofs.Graph.Reachable
import NestedQuery.Proofs.Graph.Scalars
import NestedQuery.Proofs.Graph.Submitted
import NestedQuery.Proofs.Number.Notation
import NestedQuery.Proofs.Plan.Acceptance
import NestedQuery.Proofs.Plan.Definite
import NestedQuery.Proofs.Plan.WellFormed
import NestedQuery.Proofs.Query.Casts
import NestedQuery.Proofs.Query.Duality
import NestedQuery.Proofs.Query.MemberLiterals
import NestedQuery.Proofs.Query.Membership
import NestedQuery.Proofs.Query.Positions
import NestedQuery.Proofs.Query.Quantified
import NestedQuery.Proofs.Query.Reordering
import NestedQuery.Proofs.Query.RoundTrip
import NestedQuery.Proofs.Schema.Acceptance
import NestedQuery.Proofs.Schema.Inheritance
import NestedQuery.Proofs.Schema.Rounds
import NestedQuery.Proofs.Schema.Walks
import NestedQuery.Proofs.Service.Answering
import NestedQuery.Proofs.Store.Insertion
import NestedQuery.Summary
