import NestedQuery.Database
import NestedQuery.Text.Quoted

/-!
# Summaries

One line of text about a database, for logs.

* `Coercions.summary`     the keys of the types that are coerced to;
* `Database.summary`      the number of models, and the coercions.
-/

namespace NestedQuery

/-- texts with a comma and a blank between them -/
def listed (texts : List String) : String := String.intercalate ", " texts

def Coercions.summary (c : Coercions) : String :=
  "CoercionRegistry \x7b keys: [" ++ listed (c.keys.map Text.quoted) ++ "] \x7d"

def Database.summary (d : Database) : String :=
  s!"QueryFactory \x7b models: {d.schema.models.size}, coercions: {d.coercions.summary}, .. \x7d"

end NestedQuery
