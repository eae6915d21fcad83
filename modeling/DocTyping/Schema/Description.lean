import DocTyping.Json.Basic
import DocTyping.Schema.Basic

namespace DocTyping

/-!
# Schema descriptions

A description is a schema as a file states it, before its field names are
checked.  `load` accepts the descriptions whose names can be written in a path;
`describe` states a schema, and `toJson` writes a description in full.
-/

inductive Description where
  | scalar (kind : ScalarKind)
  | array (items : Description)
  | object (shape : Shape Description)
deriving Repr

inductive NameFlaw where
  | empty
  | startsWithDollar
  | containsDot
deriving DecidableEq, Repr

def NameFlaw.of? (name : String) : Option NameFlaw :=
  if name.toList = [] then some .empty
  else if name.toList.head? = some '$' then some .startsWithDollar
  else if name.toList.contains '.' then some .containsDot
  else none

/-- A field name that no path can spell, and the location of the object that declares it. -/
structure NameError where
  location : String
  name : String
  flaw : NameFlaw
deriving DecidableEq, Repr

def NameError.message (error : NameError) : String :=
  let location := if error.location.isEmpty then "<root>" else error.location
  match error.flaw with
  | .empty => s!"empty field name under {location}"
  | .startsWithDollar => s!"field '{error.name}' under {location} starts with '$'"
  | .containsDot => s!"field '{error.name}' under {location} contains '.'"

namespace Description

instance : Inhabited Description := ⟨scalar .unknown⟩

def checkName (location name : String) : Except NameError Unit :=
  match NameFlaw.of? name with
  | none => .ok ()
  | some flaw => .error ⟨location, name, flaw⟩

def fieldLocation (location name : String) : String :=
  if location.isEmpty then name else location ++ "." ++ name

mutual

def load (location : String) : Description → Except NameError Schema
  | .scalar kind => .ok (.scalar kind)
  | .array items => do
    let element ← load (location ++ "[]") items
    return .array element
  | .object shape => do
    let shape ← loadShape location shape
    return .object shape
termination_by structural description => description

def loadShape (location : String) : Shape Description → Except NameError (Shape Schema)
  | ⟨fields, additional⟩ => do
    let fields ← loadFields location fields
    let additional ← loadAdditional location additional
    return ⟨fields, additional⟩
termination_by structural shape => shape

def loadFields (location : String) :
    List (Field Description) → Except NameError (List (Field Schema))
  | [] => .ok []
  | field :: rest => do
    let field ← loadField location field
    let fields ← loadFields location rest
    return field :: fields
termination_by structural fields => fields

def loadField (location : String) : Field Description → Except NameError (Field Schema)
  | ⟨name, node, optional, nullable⟩ => do
    checkName location name
    let node ← load (fieldLocation location name) node
    return ⟨name, node, optional, nullable⟩
termination_by structural field => field

def loadAdditional (location : String) : Option Description → Except NameError (Option Schema)
  | none => .ok none
  | some node => do
    let node ← load (location ++ ".*") node
    return some node
termination_by structural additional => additional

end

def isObject : Description → Bool
  | object _ => true
  | _ => false

mutual

/-- The entries of a written description; it names every part. -/
def toEntries : Description → Entries
  | .scalar kind => [("type", .string kind.name)]
  | .array items => [("type", .string "array"), ("items", .object (toEntries items))]
  | .object shape => ("type", .string "object") :: shapeEntries shape
termination_by structural description => description

def shapeEntries : Shape Description → Entries
  | ⟨fields, additional⟩ =>
    [("fields", .object (fieldEntries fields)), ("additional", additionalJson additional)]
termination_by structural shape => shape

def fieldEntries : List (Field Description) → Entries
  | [] => []
  | field :: rest => fieldEntry field :: fieldEntries rest
termination_by structural fields => fields

def fieldEntry : Field Description → String × Json
  | ⟨name, node, optional, nullable⟩ =>
    (name, .object (toEntries node ++ [("optional", .bool optional), ("nullable", .bool nullable)]))
termination_by structural field => field

/-- The description of undeclared keys, null for a closed object. -/
def additionalJson : Option Description → Json
  | none => .null
  | some node => .object (toEntries node)
termination_by structural additional => additional

end

def toJson (description : Description) : Json := .object description.toEntries

end Description

namespace Schema

mutual

def describe : Schema → Description
  | .scalar kind => .scalar kind
  | .array element => .array (describe element)
  | .object shape => .object (describeShape shape)
termination_by structural schema => schema

def describeShape : Shape Schema → Shape Description
  | ⟨fields, additional⟩ => ⟨describeFields fields, describeAdditional additional⟩
termination_by structural shape => shape

def describeFields : List (Field Schema) → List (Field Description)
  | [] => []
  | field :: rest => describeField field :: describeFields rest
termination_by structural fields => fields

def describeField : Field Schema → Field Description
  | ⟨name, node, optional, nullable⟩ => ⟨name, describe node, optional, nullable⟩
termination_by structural field => field

def describeAdditional : Option Schema → Option Description
  | none => none
  | some node => some (describe node)
termination_by structural additional => additional

end

def toJson (schema : Schema) : Json := schema.describe.toJson

end Schema

end DocTyping
