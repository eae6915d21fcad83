import DocTyping.Pipeline.Arguments
import DocTyping.Schema.Reshape

namespace DocTyping

/-!
# Joins

`$lookup`, `$graphLookup` and `$unionWith` read other collections of the catalog.
What `$lookup` and `$unionWith` do with a pipeline of their own is left to
replaying: here is what they need before and after it.
-/

structure Join where
  foreign : Schema
  target : List String
  /-- Documents join where two fields are equal. -/
  equality : Bool

def Join.attach (join : Join) (schema joined : Schema) : Schema :=
  Schema.setPath (.array joined) {} join.target schema

def graphKeys : List String :=
  ["from", "startWith", "connectFromField", "connectToField", "as", "maxDepth", "depthField",
    "restrictSearchWithMatch"]

namespace Pipeline

def foreignUnder (pipeline : Pipeline) (stage : String) (entries : Entries) (key : String) :
    Checked Schema := do
  let name ← textArgument stage entries key
  pipeline.foreign name

def checkPathUnder (pipeline : Pipeline) (stage : String) (root : Schema) (entries : Entries)
    (key : String) : Checked Unit := do
  let path ← textArgument stage entries key
  let _ ← pipeline.resolveIn root path

/-- Whether documents join by equality; both of its fields are needed. -/
def joinsByEquality (pipeline : Pipeline) (foreign : Schema) (entries : Entries) :
    Checked Bool :=
  match entries.has "localField", entries.has "foreignField" with
  | true, true => do
    pipeline.checkPathUnder "$lookup" pipeline.schema entries "localField"
    pipeline.checkPathUnder "$lookup" foreign entries "foreignField"
    return true
  | false, false => .ok false
  | _, _ => .error (.argument "$lookup" (.together "localField" "foreignField"))

def readJoin (pipeline : Pipeline) (entries : Entries) : Checked Join := do
  checkKnown "$lookup" entries ["from", "localField", "foreignField", "let", "pipeline", "as"]
  let foreign ← pipeline.foreignUnder "$lookup" entries "from"
  let path ← textArgument "$lookup" entries "as"
  let target ← fieldNames "$lookup" path
  let equality ← pipeline.joinsByEquality foreign entries
  return { foreign, target, equality }

/-- The pipeline over the collection that is joined, before its own stages. -/
def joinSeed (pipeline : Pipeline) (join : Join) (entries : Entries) : Checked Pipeline :=
  let seed := pipeline.seed join.foreign
  if entries.has "pipeline" then do
    let bindings ← pipeline.letBindings "$lookup" entries
    return seed.bindAll bindings
  else if entries.has "let" then .error (.argument "$lookup" (.needs "let" "pipeline"))
  else if join.equality then .ok seed
  else .error (.argument "$lookup" .lookupSource)

/-- The pipeline over the collection that is appended, before its own stages.  The collection is
looked up only for a pipeline. -/
def unionSeed (pipeline : Pipeline) (entries : Entries) : Checked Pipeline := do
  checkKnown "$unionWith" entries ["coll", "pipeline"]
  let collection ← textArgument "$unionWith" entries "coll"
  if entries.has "pipeline" then do
    let foreign ← pipeline.foreign collection
    return pipeline.seed foreign
  else return pipeline

def checkGraph (pipeline : Pipeline) (specification : Json) : Checked Unit := do
  let entries ← objectArgument "$graphLookup" specification
  checkKnown "$graphLookup" entries graphKeys
  let foreign ← pipeline.foreignUnder "$graphLookup" entries "from"
  let start ← requiredArgument "$graphLookup" entries "startWith"
  pipeline.checkExpression start
  pipeline.checkPathUnder "$graphLookup" foreign entries "connectFromField"
  pipeline.checkPathUnder "$graphLookup" foreign entries "connectToField"
  checkTargetPath "$graphLookup" entries "as"
  checkTargetPath? "$graphLookup" entries "depthField"
  checkGiven entries "maxDepth" fun depth =>
    demand depth.isCount "$graphLookup" (.keyForm "maxDepth" .nonNegativeInteger)
  checkGiven entries "restrictSearchWithMatch" (pipeline.checkFilter foreign)

end Pipeline

end DocTyping
