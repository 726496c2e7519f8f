import NestedQuery.Coercion.Basic
import NestedQuery.Database
import NestedQuery.Fixture.Basic

/-!
# Loading fixtures

* `Fixture.schema`     the schema of the declarations;
* `Fixture.rowOf`      a row whose columns are brought to their declared types;
* `Fixture.database`   the schema with all rows inserted, model by model in the order of their
                       names.
-/

namespace NestedQuery

/-! ## columns -/

/-- a whole number as a value, or the nearest double if it takes more than 64 bits -/
def Json.integerValue (n : Int) : Value :=
  if -0x8000000000000000 ≤ n ∧ n < 0x8000000000000000 then .integer (Int64.ofInt n) else .float (.ofInt n)

mutual

/-- a document as the value of a column -/
def Json.columnValue : Json → Except Error Value
  | .null => .ok .null
  | .boolean b => .ok (.boolean b)
  | .integer n => .ok (Json.integerValue n)
  | .float x => .ok (.float x)
  | .string s => .ok (.string s)
  | .array items => (Json.columnValues items).map .list
  | .object _ => .error .nestedObject

def Json.columnValues : List Json → Except Error (List Value)
  | [] => .ok []
  | item :: rest =>
    (Json.columnValue item).bind fun v => (Json.columnValues rest).map (v :: ·)

end

namespace Fixture

/-! ## the schema -/

/-- types by their names, with custom ones for all other names -/
def typeNamed (name : String) : AttributeType :=
  let known : List AttributeType :=
    [.integer, .float, .string, .boolean, .date, .datetime, .time, .uuid, .decimal]
  (known.find? fun type => type.key == name).getD (.custom name)

/-- the members of an enumeration with their values -/
def memberValues : List (String × Json) → Except Error (List (String × Value))
  | [] => .ok []
  | (name, j) :: rest =>
    j.columnValue.bind fun v => (memberValues rest).map ((name, v) :: ·)

def TypeForm.type : TypeForm → Except Error AttributeType
  | named name => .ok (typeNamed name)
  | enum members => (memberValues members.entries).map fun values => .enum (.ofList values)

def addAttributes (d : Declaration) : List (String × TypeForm) → Except Error Declaration
  | [] => .ok d
  | (name, form) :: rest => form.type.bind fun type => addAttributes (d.addAttribute name type) rest

def addRelationship (d : Declaration) (name : String) (r : RelationshipForm) : Declaration :=
  d.addRelationship name r.target r.cardinality r.localColumn r.remoteColumn

/-- attributes are declared before the key, whose columns need not be among them -/
def ModelForm.declaration (m : ModelForm) : Except Error Declaration :=
  (addAttributes (.named m.name) m.attributes.entries).map fun d =>
    let d := m.primaryKey.foldl Declaration.addKeyColumn d
    let d := m.relationships.entries.foldl (fun d e => addRelationship d e.1 e.2) d
    match m.parent with
    | some parent => d.withParent parent
    | none => d

def declarationsOf : List ModelForm → Except Error (List Declaration)
  | [] => .ok []
  | m :: rest => m.declaration.bind fun d => (declarationsOf rest).map (d :: ·)

def schema (f : Fixture) : Except Error Schema :=
  (declarationsOf f.models).bind fun ds => (Schema.ofDeclarations ds).mapError .schema

/-! ## the rows -/

/-- a column brought to the type of its attribute -/
def columnOf (s : Schema) (c : Coercions) (model column : String) (j : Json) :
    Except Error Value :=
  (s.attributeOf model column).bind fun a => j.columnValue.bind (c.coerce a)

def columnsOf (s : Schema) (c : Coercions) (model : String) :
    List (String × Json) → Except Error (List (String × Value))
  | [] => .ok []
  | (column, j) :: rest =>
    (columnOf s c model column j).bind fun v =>
      (columnsOf s c model rest).map ((column, v) :: ·)

def rowOf (s : Schema) (c : Coercions) (model : String) (fields : Dict Json) :
    Except Error Row :=
  (columnsOf s c model fields.entries).map .ofList

/-- rows of one model inserted in their order, the first of them with the number `index` -/
def insertRows (c : Coercions) (model : String) (index : Nat) (s : Store) :
    List (Dict Json) → Except Error Store
  | [] => .ok s
  | fields :: rest =>
    match rowOf s.schema c model fields with
    | .error e => .error (.rejectedRow model index e)
    | .ok row => (s.insert model row).bind fun (s, _) => insertRows c model (index + 1) s rest

def insertTables (c : Coercions) (s : Store) :
    List (String × List (Dict Json)) → Except Error Store
  | [] => .ok s
  | (model, rows) :: rest =>
    (insertRows c model 0 s rows).bind fun s => insertTables c s rest

def database (f : Fixture) (c : Coercions) : Except Error Database :=
  f.schema.bind fun s => (insertTables c (.empty s) f.rows.entries).map fun store => ⟨store, c⟩

end Fixture

end NestedQuery
