import DocTyping.Json.Basic
import DocTyping.Schema.Basic

namespace DocTyping

/-!
# Geometries

Which schemas can hold a geometry, and which values are one.  A legacy point is a
list of coordinates.
-/

namespace Schema

def isNumeric (schema : Schema) : Bool := schema.scalarKind?.any ScalarKind.isNumeric

def isCoordinatePair (schema : Schema) : Bool := schema.element?.any Schema.isNumeric

def declaresSuch (schema : Schema) (name : String) (property : Schema → Bool) : Bool :=
  (schema.shape?.bind fun shape => shape.declared? name).any property

/-- Whether a schema is a geometry: a type name with coordinates or with geometries. -/
def isGeometry (schema : Schema) : Bool :=
  (schema.declaresSuch "type" fun node => node.scalarKind? == some .string)
    && ["coordinates", "geometries"].any fun name =>
      schema.declaresSuch name fun node => node.element?.isSome

/-- Whether a schema is a geometry of one position. -/
def isPoint (schema : Schema) : Bool :=
  schema.isGeometry && schema.declaresSuch "coordinates" isCoordinatePair

end Schema

namespace Json

/-- The types of geometries that have coordinates, other than points. -/
def coordinateTypes : List String :=
  ["MultiPoint", "LineString", "MultiLineString", "Polygon", "MultiPolygon"]

def isCoordinatePair (value : Json) : Bool :=
  match value with
  | array items => 2 ≤ items.length && items.all isNumber
  | _ => false

def geometryType? (value : Json) : Option String := do
  let entries ← value.object?
  let type ← entries.lookup "type"
  type.string?

/-- Whether the coordinates of a geometry suit its type. -/
def hasCoordinates (entries : List (String × Json)) (type : String) : Bool :=
  match entries.lookup "coordinates" with
  | some coordinates =>
    if type = "Point" then coordinates.isCoordinatePair
    else coordinateTypes.contains type && coordinates.array?.isSome
  | none => false

mutual

def isGeometry : Json → Bool
  | .object entries =>
    match (entries.lookup "type").bind string? with
    | some "GeometryCollection" => hasGeometries entries
    | some type => hasCoordinates entries type
    | none => false
  | _ => false
termination_by structural value => value

def hasGeometries : List (String × Json) → Bool
  | [] => false
  | (key, value) :: rest => if key = "geometries" then areGeometries value else hasGeometries rest
termination_by structural entries => entries

def areGeometries : Json → Bool
  | .array items => eachGeometry items
  | _ => false
termination_by structural value => value

def eachGeometry : List Json → Bool
  | [] => true
  | item :: rest => isGeometry item && eachGeometry rest
termination_by structural items => items

end

def isPoint (value : Json) : Bool := value.isGeometry && value.geometryType? == some "Point"

def isPolygon (value : Json) : Bool :=
  value.isGeometry
    && (value.geometryType? == some "Polygon" || value.geometryType? == some "MultiPolygon")

def isLegacyShape (name : String) (value : Json) : Bool :=
  match name, value with
  | "$box", array items => items.length == 2 && items.all isCoordinatePair
  | "$polygon", array items => 3 ≤ items.length && items.all isCoordinatePair
  | "$center", array [centre, radius] => centre.isCoordinatePair && radius.isNumber
  | "$centerSphere", array [centre, radius] => centre.isCoordinatePair && radius.isNumber
  | _, _ => false

end Json

end DocTyping
