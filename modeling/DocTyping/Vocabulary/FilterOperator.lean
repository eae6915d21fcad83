import DocTyping.Vocabulary.Capability

namespace DocTyping

/-!
# Filter operators

The operators of a condition on a field, and those that stand at the root of a
filter.
-/

inductive FilterArgument where
  | fieldValue
  /-- A value of the field's type, or a pattern on a string field. -/
  | fieldValueOrPattern
  /-- A list of values of the field's type, or of patterns on a string field. -/
  | fieldValues
  | bool
  /-- A stored type, by alias or code, or a list of them. -/
  | typeSpec
  | count
  | elementValues
  | elementFilter
  | pattern
  | regexOptions
  | modPair
  | bitMask
  /-- A polygon, or a shape in legacy form. -/
  | geoWithin
  | geometry
  /-- A point and bounds on the distance. -/
  | near
  | distance
  | expression
  | jsonSchema
  | emptyObject
  /-- Operators to negate, or a pattern on a string field. -/
  | negation
deriving DecidableEq, Repr

structure FilterOperator where
  name : String
  capability : Capability
  argument : FilterArgument
deriving DecidableEq, Repr

namespace FilterOperator

def all : List FilterOperator :=
  [⟨"$eq", .any, .fieldValue⟩,
    ⟨"$ne", .any, .fieldValueOrPattern⟩,
    ⟨"$gt", .any, .fieldValue⟩,
    ⟨"$gte", .any, .fieldValue⟩,
    ⟨"$lt", .any, .fieldValue⟩,
    ⟨"$lte", .any, .fieldValue⟩,
    ⟨"$in", .any, .fieldValues⟩,
    ⟨"$nin", .any, .fieldValues⟩,
    ⟨"$exists", .any, .bool⟩,
    ⟨"$type", .any, .typeSpec⟩,
    ⟨"$size", .arrayOf .any, .count⟩,
    ⟨"$all", .arrayOf .any, .elementValues⟩,
    ⟨"$elemMatch", .arrayOf .any, .elementFilter⟩,
    ⟨"$regex", .string, .pattern⟩,
    ⟨"$options", .string, .regexOptions⟩,
    ⟨"$mod", .numeric, .modPair⟩,
    ⟨"$expr", .any, .expression⟩,
    ⟨"$jsonSchema", .any, .jsonSchema⟩,
    ⟨"$rand", .any, .emptyObject⟩,
    ⟨"$bitsAllClear", .integer, .bitMask⟩,
    ⟨"$bitsAllSet", .integer, .bitMask⟩,
    ⟨"$bitsAnyClear", .integer, .bitMask⟩,
    ⟨"$bitsAnySet", .integer, .bitMask⟩,
    ⟨"$geoWithin", .geoShape, .geoWithin⟩,
    ⟨"$geoIntersects", .geoShape, .geometry⟩,
    ⟨"$near", .geoPoint, .near⟩,
    ⟨"$nearSphere", .geoJsonPoint, .near⟩,
    ⟨"$maxDistance", .geoPoint, .distance⟩,
    ⟨"$minDistance", .geoPoint, .distance⟩,
    ⟨"$not", .any, .negation⟩]

def named? (name : String) : Option FilterOperator :=
  all.find? fun operator => operator.name == name

def namesFor (schema : Schema) : List String :=
  (all.filter fun operator => operator.capability.admits schema).map FilterOperator.name

def rootNames : List String :=
  ["$and", "$or", "$nor", "$text", "$where", "$comment", "$expr", "$jsonSchema"]

end FilterOperator

end DocTyping
