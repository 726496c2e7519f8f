import NestedQuery.Graph.Document
import NestedQuery.Graph.Loading
import NestedQuery.Plan.OfQuery
import NestedQuery.Query.Parse

/-!
# Databases

A store and the coercions that its queries use.

* `Database.plan`        the plan of a text;
* `Database.graph`       the objects that a text asks for;
* `Database.document`    the document that a text asks for;
* `Database.outcome?`    the document or the error, of a query that comes to an end.
-/

namespace NestedQuery

structure Database where
  store : Store
  coercions : Coercions

namespace Database

def schema (d : Database) : Schema := d.store.schema

def empty (s : Schema) : Database := ⟨.empty s, .standard⟩

def plan (d : Database) (text : String) : Except Error Plan :=
  (Query.ofText d.schema text).bind (Plan.ofQuery d.schema d.coercions)

def graph (d : Database) (text : String) : Except Error Graph :=
  (d.plan text).bind d.store.submit

def document (d : Database) (text : String) : Except Error Json :=
  (d.graph text).bind Graph.document

/-- whether the query of a text is given up at a key without a text -/
def breaksOff (d : Database) (text : String) : Bool :=
  match d.plan text with
  | .ok p => d.store.breaksOff p
  | .error _ => false

/-- what the query of a text comes to, unless it is given up -/
def outcome? (d : Database) (text : String) : Option (Except Error Json) :=
  if d.breaksOff text then none else some (d.document text)

end Database

end NestedQuery
