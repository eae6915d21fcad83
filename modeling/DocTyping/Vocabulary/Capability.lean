import DocTyping.Vocabulary.Geometry

namespace DocTyping

/-!
# Capabilities

What an operator asks of the schema it is applied to.
-/

inductive Capability where
  | any
  | numeric
  | integer
  | string
  /-- Dates and timestamps. -/
  | date
  | arrayOf (inner : Capability)
  /-- A legacy coordinate list or a point. -/
  | geoPoint
  | geoJsonPoint
  /-- A geometry or a legacy coordinate list. -/
  | geoShape
deriving DecidableEq, Repr

namespace Capability

def admits : Capability → Schema → Bool
  | any, _ => true
  | numeric, schema => schema.isNumeric
  | integer, schema => schema.scalarKind?.any ScalarKind.isInteger
  | string, schema => schema.scalarKind? == some .string
  | date, schema => schema.scalarKind? == some .date || schema.scalarKind? == some .timestamp
  | arrayOf inner, schema => schema.element?.any inner.admits
  | geoPoint, schema => schema.isCoordinatePair || schema.isPoint
  | geoJsonPoint, schema => schema.isPoint
  | geoShape, schema => schema.isGeometry || schema.isCoordinatePair

def name : Capability → String
  | any => "any"
  | numeric => "numeric"
  | integer => "integer"
  | string => "string"
  | date => "date"
  | arrayOf inner => "array<" ++ inner.name ++ ">"
  | geoPoint => "geo point"
  | geoJsonPoint => "GeoJSON point"
  | geoShape => "GeoJSON shape"

end Capability

end DocTyping
