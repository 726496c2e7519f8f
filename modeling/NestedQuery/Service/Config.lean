import NestedQuery.Error
import NestedQuery.Json.Reader

/-!
# Configurations

Where the service listens, how much it logs and which fixture it serves.

* `Config`             a configuration, with the defaults of a service on the local machine;
* `Config.ofText`      a configuration as an object or as an array of the fields in order; what
                       is missing keeps its default, and no field may be given twice.
-/

namespace NestedQuery

structure Config where
  host : String
  port : UInt16
  logLevel : String
  fixture : Option String
deriving DecidableEq

namespace Config

def default : Config := ⟨"127.0.0.1", 7878, "info", none⟩

instance : Inhabited Config := ⟨default⟩

/-- the defaults with a fixture to serve -/
def serving (fixture : String) : Config := { default with fixture := some fixture }

/-- the same with a log for developers -/
def forDevelopment (fixture : String) : Config := { serving fixture with logLevel := "debug" }

/-- the host and the port with a colon between them -/
def address (c : Config) : String := s!"{c.host}:{c.port.toNat}"

/-! ## reading -/

open Json (Raw StringPart decodeString?)

def string? : Raw → Option String
  | .string parts => decodeString? parts
  | _ => none

/-- a whole number of 16 bits -/
def port? : Raw → Option UInt16
  | .number n =>
    match n.decode? with
    | some (.integer n) => if 0 ≤ n ∧ n < 0x10000 then some (UInt16.ofNat n.toNat) else none
    | _ => none
  | _ => none

/-- a path, or null for none -/
def fixture? : Raw → Option (Option String)
  | .null => some none
  | raw => (string? raw).map some

/-- a field by its name; other names do not count -/
def setField? (c : Config) (name : String) (raw : Raw) : Option Config :=
  match name with
  | "host" => (string? raw).map fun host => { c with host := host }
  | "port" => (port? raw).map fun port => { c with port := port }
  | "log_level" => (string? raw).map fun level => { c with logLevel := level }
  | "fixture" => (fixture? raw).map fun fixture => { c with fixture := fixture }
  | _ => some c

/-- the names of the fields in their order -/
def fieldNames : List String := ["host", "port", "log_level", "fixture"]

/-- the fields of an object, with the names of those that were read before -/
def setFields? (c : Config) (seen : List String) :
    List (List StringPart × Raw) → Option Config
  | [] => some c
  | (parts, raw) :: rest =>
    (decodeString? parts).bind fun name =>
      if fieldNames.contains name && seen.contains name then none
      else (c.setField? name raw).bind fun c => setFields? c (name :: seen) rest

/-- items for the fields with the given names, of which there may be more than items -/
def setItems? (c : Config) : List String → List Raw → Option Config
  | _, [] => some c
  | [], _ :: _ => none
  | name :: names, raw :: rest => (c.setField? name raw).bind fun c => setItems? c names rest

def ofRaw? : Raw → Option Config
  | .object fields => setFields? default [] fields
  | .array items => setItems? default fieldNames items
  | _ => none

def ofText (text : String) : Except Error Config :=
  match (Raw.ofText text.toList).bind ofRaw? with
  | some c => .ok c
  | none => .error .invalidConfig

end Config

end NestedQuery
