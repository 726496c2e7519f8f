import NestedQuery.Database

/-!
# Requests and responses

The service answers two paths: one tells that it is up, and the other answers queries.

* `Request`, `Response`     what comes in and what goes out;
* `Request.route`           the path that a request asks for;
* `bodyLimit`               how long a body may be;
* `Database.answer`         the response to a query, which is run as a task of its own;
* `Database.respond`        the response to a request.
-/

namespace NestedQuery

structure Request where
  method : String
  path : String
  body : String

structure Response where
  status : Nat
  body : String
deriving DecidableEq

/-- a response without a body -/
def Response.bare (status : Nat) : Response := ⟨status, ""⟩

/-- a character that starts the query part or the fragment of an address -/
def startsExtra (c : Char) : Bool := c == '?' || c == '#'

/-- what follows the scheme and the host of an absolute address -/
def afterHost? : List Char → Option (List Char)
  | ':' :: '/' :: '/' :: rest => some (rest.dropWhile fun c => c != '/' && !startsExtra c)
  | c :: rest => if c == '/' || startsExtra c then none else afterHost? rest
  | [] => none

/-- the path of a request: an absolute address loses its scheme and its host, and any address its
query part and its fragment -/
def Request.route (r : Request) : String :=
  let address := r.path.toList
  String.ofList (((afterHost? address).getD address).takeWhile fun c => !startsExtra c)

def serviceVersion : String := "0.1.0"

/-- the answer that the service is up -/
def healthBody : Json :=
  .ofDict (.ofList [("status", .string "healthy"), ("version", .string serviceVersion)])

def messageBody (message : String) : Json := .ofDict (.ofList [("error", .string message)])

def errorBody (e : Error) : Json := messageBody e.message

/-- what is told of a task without a result, apart from the number of the task -/
def failedTask : String := "task panicked"

/-- the bytes of the longest body that is taken -/
def bodyLimit : Nat := 0x200000

/-- the response to a longer body -/
def Response.tooLong : Response :=
  ⟨413, "Failed to buffer the request body: length limit exceeded"⟩

namespace Database

/-- the document of a text, or the error with a status that tells who is at fault; a query that is
given up is the fault of the service -/
def answer (d : Database) (text : String) : Response :=
  match d.outcome? text with
  | some (.ok document) => ⟨200, document.render⟩
  | some (.error e) => ⟨if e.isClient then 400 else 500, (errorBody e).render⟩
  | none => ⟨500, (messageBody failedTask).render⟩

/-- unknown paths and wrong methods are answered without a body -/
def respond (d : Database) (r : Request) : Response :=
  match r.route with
  | "/health" =>
    match r.method with
    | "GET" => ⟨200, healthBody.render⟩
    | "HEAD" => .bare 200
    | _ => .bare 405
  | "/query" =>
    match r.method with
    | "POST" => if bodyLimit < r.body.utf8ByteSize then .tooLong else d.answer r.body
    | _ => .bare 405
  | _ => .bare 404

end Database

end NestedQuery
