import DocTyping.Pipeline.Arguments

namespace DocTyping

/-!
# Nearness

`$geoNear` orders documents by their distance from a point.  It checks its
arguments and leaves the schema as it is.
-/

def nearKeys : List String :=
  ["near", "distanceField", "spherical", "maxDistance", "minDistance", "query", "key",
    "includeLocs", "distanceMultiplier"]

def checkDistance (entries : Entries) (key : String) : Checked Unit :=
  checkGiven entries key fun value =>
    demand value.isDistance "$geoNear" (.keyForm key .nonNegativeNumber)

def checkOrigin (entries : Entries) : Checked Unit := do
  let near ← requiredArgument "$geoNear" entries "near"
  demand (near.isPoint || near.isCoordinatePair) "$geoNear" (.keyForm "near" .geoJsonPointOrPair)

namespace Pipeline

def checkPointField (pipeline : Pipeline) (path : String) : Checked Unit := do
  let resolved ← pipeline.resolve path
  if !Capability.geoPoint.admits resolved.node then
    throw (.of (.incompatible "$geoNear" path resolved.node .geoPoint))

def checkNearness (pipeline : Pipeline) (specification : Json) : Checked Unit := do
  let entries ← objectArgument "$geoNear" specification
  checkKnown "$geoNear" entries nearKeys
  checkOrigin entries
  checkTargetPath "$geoNear" entries "distanceField"
  checkTargetPath? "$geoNear" entries "includeLocs"
  checkGiven entries "spherical" fun value =>
    demand value.bool?.isSome "$geoNear" (.keyForm "spherical" .boolean)
  checkDistance entries "maxDistance"
  checkDistance entries "minDistance"
  checkDistance entries "distanceMultiplier"
  checkGiven entries "query" (pipeline.checkFilter pipeline.schema)
  match ← textArgument? "$geoNear" entries "key" with
  | some path => pipeline.checkPointField path
  | none => return

end Pipeline

end DocTyping
