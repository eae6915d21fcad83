import DocTyping.Files
import DocTyping.Json.Written
import DocTyping.Schema.Reader

namespace DocTyping

/-!
# Loading schemas

A root schema is an object.  A catalog file names one root per collection.
-/

/-- Why a readable description states no root. -/
inductive SchemaFlaw where
  | rootNotObject
  | emptyCollectionName
  | name (error : NameError)
deriving DecidableEq, Repr

/-- Why a source holds no description at all. -/
inductive UnreadableCause where
  | notDescription
  | unopened (fault : FileFault)
deriving DecidableEq, Repr

inductive SchemaError where
  | malformed (source : String) (flaw : SchemaFlaw)
  | unreadable (source : String) (cause : UnreadableCause)
  | unknownCollection (name : String)
deriving DecidableEq, Repr

namespace SchemaFlaw

def message : SchemaFlaw → String
  | rootNotObject => "root must be an object"
  | emptyCollectionName => "empty collection name"
  | name error => error.message

end SchemaFlaw

namespace UnreadableCause

def message : UnreadableCause → String
  | notDescription => "Invalid JSON: not a schema description"
  | unopened fault => "Failed to read file: " ++ fault.message

end UnreadableCause

namespace SchemaError

def code : SchemaError → String
  | malformed .. => "SHAPE_SCHEMA_MALFORMED"
  | unreadable .. => "SHAPE_SCHEMA_UNREADABLE"
  | unknownCollection _ => "SHAPE_UNKNOWN_COLLECTION"

def message : SchemaError → String
  | malformed source flaw => s!"Schema '{source}' is malformed: {flaw.message}"
  | unreadable source cause => s!"Schema '{source}' could not be read: {cause.message}"
  | unknownCollection name => s!"Collection '{name}' is not in the schema catalog"

def report (error : SchemaError) : String := s!"[REJECT] {error.code}: {error.message}"

def source? : SchemaError → Option String
  | malformed source _ => some source
  | unreadable source _ => some source
  | unknownCollection _ => none

end SchemaError

namespace Schema

def ofDescription (source : String) (description : Description) : Except SchemaError Schema :=
  if description.isObject then
    match description.load "" with
    | .ok schema => .ok schema
    | .error error => .error (.malformed source (.name error))
  else .error (.malformed source .rootNotObject)

def ofJson (source : String) (value : Json) : Except SchemaError Schema :=
  match Description.read? false value with
  | some description => ofDescription source description
  | none => .error (.unreadable source .notDescription)

def ofText (source text : String) : Except SchemaError Schema :=
  match Json.readRepeated? text with
  | some value => ofJson source value
  | none => .error (.unreadable source .notDescription)

end Schema

structure Catalog where
  collections : Keyed Schema

namespace Catalog

def get (catalog : Catalog) (name : String) : Except SchemaError Schema :=
  match catalog.collections.get? name with
  | some root => .ok root
  | none => .error (.unknownCollection name)

/-- The root to use when no collection is named: that of the only collection. -/
def sole? (catalog : Catalog) : Option Schema :=
  match catalog.collections with
  | [(_, root)] => some root
  | _ => none

def readCollections? : List (String × Json) → Option (List (String × Description))
  | [] => some []
  | (name, value) :: rest => do
    let description ← Description.read? false value
    let collections ← readCollections? rest
    return (name, description) :: collections

def readMap? (written : Json.Written) : Option (Keyed Description) := do
  let value ← written.value? (Json.Written.nestingLimit - 1)
  let entries ← value.object?
  let collections ← readCollections? entries
  return Keyed.ofList collections

/-- Reads a catalog file: an object with `collections` once, whose other values may be
anything, or a list of only the collections. -/
def readFile? : Json.Written → Option (Keyed Description)
  | .object entries =>
    if entries.any (fun entry => entry.1.isNone) then none
    else
      match entries.filter fun entry => entry.1 == some "collections" with
      | [(_, collections)] => readMap? collections
      | _ => none
  | .array [collections] => readMap? collections
  | _ => none

def loadCollections (source : String) : Keyed Description → Except SchemaError (Keyed Schema)
  | [] => .ok []
  | (name, description) :: rest => do
    if name.isEmpty then throw (.malformed source .emptyCollectionName)
    let root ← Schema.ofDescription s!"{source}#{name}" description
    let roots ← loadCollections source rest
    return (name, root) :: roots

def ofText (source text : String) : Except SchemaError Catalog :=
  match (Json.Written.read? text).bind readFile? with
  | some collections => do
    let roots ← loadCollections source collections
    return ⟨roots⟩
  | none => .error (.unreadable source .notDescription)

end Catalog

end DocTyping
