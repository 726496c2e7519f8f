import NestedQuery.Fixture.Load
import NestedQuery.Service.Config
import NestedQuery.Service.Exchange

/-!
# The command line

The arguments are at most one: the path of a configuration.  The fixture that it names is loaded
(without one, the schema is empty), and the query on standard input is answered.

* `CommandLine.configOf`      the configuration that the arguments ask for;
* `CommandLine.databaseOf`    the database that a configuration asks for;
* `main`                      the body of the response, with exit code 0 if the query succeeds.
-/

namespace NestedQuery

namespace CommandLine

/-- the result, or a failure with the wording of the error -/
def orFail {α : Type} : Except Error α → IO α
  | .ok a => pure a
  | .error e => throw (IO.userError e.message)

def configOf : List String → IO Config
  | [] => pure .default
  | path :: _ => do orFail (Config.ofText (← IO.FS.readFile path))

def databaseOf (c : Config) : IO Database :=
  match c.fixture with
  | none => pure (.empty .empty)
  | some path => do
    orFail ((Fixture.ofText (← IO.FS.readFile path)).bind fun f => f.database .standard)

end CommandLine

end NestedQuery

def main (args : List String) : IO UInt32 := do
  let config ← NestedQuery.CommandLine.configOf args
  let database ← NestedQuery.CommandLine.databaseOf config
  let text ← (← IO.getStdin).readToEnd
  let response := database.respond ⟨"POST", "/query", text⟩
  IO.println response.body
  return if response.status == 200 then 0 else 1
