import DocTyping.Pipeline.Joins
import DocTyping.Pipeline.Nearness
import DocTyping.Pipeline.Projection
import DocTyping.Pipeline.Replacement
import DocTyping.Pipeline.Unwinding
import DocTyping.Pipeline.Windows

namespace DocTyping.Pipeline

/-!
# Adding stages

Each function adds one stage, if its arguments fit the current schema.  Stages
that hold pipelines of their own are added by replaying.
-/

def matching (pipeline : Pipeline) (filter : Json) : Except PipelineError Pipeline :=
  pipeline.pass "$match" filter (pipeline.checkFilter pipeline.schema filter)

def sample (pipeline : Pipeline) (size : Int) : Except PipelineError Pipeline :=
  pipeline.pass "$sample" (.object [("size", .ofInt size)])
    (demand (0 < size) "$sample" (.shouldBe "size" .positiveInteger))

def limit (pipeline : Pipeline) (count : Int) : Except PipelineError Pipeline :=
  pipeline.pass "$limit" (.ofInt count)
    (demand (0 < count) "$limit" (.shouldBe "limit" .positiveInteger))

def skip (pipeline : Pipeline) (count : Int) : Except PipelineError Pipeline :=
  pipeline.pass "$skip" (.ofInt count)
    (demand (0 ≤ count) "$skip" (.shouldBe "skip" .nonNegativeInteger))

def sort (pipeline : Pipeline) (keys : Json) : Except PipelineError Pipeline :=
  pipeline.pass "$sort" keys (pipeline.checkSort "$sort" keys)

def setWindowFields (pipeline : Pipeline) (options : Json) : Except PipelineError Pipeline :=
  pipeline.pass "$setWindowFields" options (pipeline.checkWindowStage options)

def bucket (pipeline : Pipeline) (options : Json) : Except PipelineError Pipeline :=
  pipeline.pass "$bucket" options (pipeline.checkBuckets options)

def bucketAuto (pipeline : Pipeline) (options : Json) : Except PipelineError Pipeline :=
  pipeline.pass "$bucketAuto" options (pipeline.checkAutoBuckets options)

def densify (pipeline : Pipeline) (options : Json) : Except PipelineError Pipeline :=
  pipeline.pass "$densify" options (pipeline.checkDensify options)

def fill (pipeline : Pipeline) (options : Json) : Except PipelineError Pipeline :=
  pipeline.pass "$fill" options (pipeline.checkFill options)

/-- Orders the documents by distance; only as the first stage. -/
def geoNear (pipeline : Pipeline) (options : Json) : Except PipelineError Pipeline :=
  pipeline.pass "$geoNear" options do
    pipeline.requireFirst "$geoNear"
    pipeline.checkNearness options

def graphLookup (pipeline : Pipeline) (options : Json) : Except PipelineError Pipeline :=
  pipeline.pass "$graphLookup" options (pipeline.checkGraph options)

def addFields (pipeline : Pipeline) (fields : Json) : Except PipelineError Pipeline :=
  pipeline.reshape "$addFields" fields (pipeline.withAdditions "$addFields" fields)

def set (pipeline : Pipeline) (fields : Json) : Except PipelineError Pipeline :=
  pipeline.reshape "$set" fields (pipeline.withAdditions "$set" fields)

def unset (pipeline : Pipeline) (paths : Json) : Except PipelineError Pipeline :=
  pipeline.reshape "$unset" paths (pipeline.withRemovals paths)

def project (pipeline : Pipeline) (fields : Json) : Except PipelineError Pipeline :=
  pipeline.reshape "$project" fields (pipeline.projected fields)

def group (pipeline : Pipeline) (options : Json) : Except PipelineError Pipeline :=
  pipeline.reshape "$group" options (pipeline.grouped options)

def count (pipeline : Pipeline) (field : String) : Except PipelineError Pipeline :=
  pipeline.reshape "$count" (.string field) (counted field)

def sortByCount (pipeline : Pipeline) (key : Json) : Except PipelineError Pipeline :=
  pipeline.reshape "$sortByCount" key (pipeline.groupedByCount key)

def unwind (pipeline : Pipeline) (options : Json) : Except PipelineError Pipeline :=
  pipeline.reshape "$unwind" options (pipeline.unwound options)

/-- Replaces each document; the schema is the declared one, else that of the expression. -/
def replaceRoot (pipeline : Pipeline) (expression : Json) (declared : Option Schema) :
    Except PipelineError Pipeline :=
  pipeline.reshape "$replaceRoot" (.object [("newRoot", expression)])
    (pipeline.replaced "$replaceRoot" expression declared)

def replaceWith (pipeline : Pipeline) (expression : Json) (declared : Option Schema) :
    Except PipelineError Pipeline :=
  pipeline.reshape "$replaceWith" expression (pipeline.replaced "$replaceWith" expression declared)

/-- States the documents; only as the first stage. -/
def documents (pipeline : Pipeline) (documents : Json) : Except PipelineError Pipeline :=
  pipeline.reshape "$documents" documents do
    pipeline.requireFirst "$documents"
    pipeline.stated documents

/-- The stages that no branch of a facet may have. -/
def branchExclusions : List String := ["$facet", "$geoNear", "$documents"]

/-- Checks one branch, given the names of those before it. -/
def checkBranch (seen : List String) (name : String) (branch : Pipeline) : Checked Unit := do
  checkFieldName "$facet" name
  demand (!seen.contains name) "$facet" (.duplicateBranch name)
  match branch.stages.find? fun stage => branchExclusions.contains stage.name with
  | some stage => throw (.argument "$facet" (.branchStage name stage.name))
  | none => return

def checkBranches (seen : List String) : List (String × Pipeline) → Checked Unit
  | [] => .ok ()
  | (name, branch) :: rest => do
    checkBranch seen name branch
    checkBranches (name :: seen) rest

/-- The document that the branches of a facet lead to: an array for each. -/
def faceted (branches : List (String × Pipeline)) : Checked Schema := do
  demand (!branches.isEmpty) "$facet" .noBranch
  checkBranches [] branches
  return .record (branches.map fun branch => (branch.1, .array branch.2.schema))

def toJson (pipeline : Pipeline) : Json := .array (pipeline.stages.map Stage.document)

def facet (pipeline : Pipeline) (branches : List (String × Pipeline)) :
    Except PipelineError Pipeline :=
  let arguments := Keyed.ofList (branches.map fun branch => (branch.1, branch.2.toJson))
  pipeline.reshape "$facet" (.object arguments) (faceted branches)

/-- The only value of an object argument, `null` when it is left out. -/
def onlyArgument (stage key : String) (argument : Json) : Checked Json := do
  let entries ← objectArgument stage argument
  checkKnown stage entries [key]
  return (entries.get? key).getD .null

def onlyInteger (stage key : String) (argument : Json) : Checked Int := do
  let value ← onlyArgument stage key argument
  integerArgument stage value

/-- Adds a stage that holds no pipeline, given its name and arguments. -/
def extendFlat (pipeline : Pipeline) (name : String) (arguments : Json) :
    Except PipelineError Pipeline :=
  match name with
  | "$match" => pipeline.matching arguments
  | "$sample" => do
    let size ← pipeline.lift name (onlyInteger name "size" arguments)
    pipeline.sample size
  | "$limit" => do
    let count ← pipeline.lift name (integerArgument name arguments)
    pipeline.limit count
  | "$skip" => do
    let count ← pipeline.lift name (integerArgument name arguments)
    pipeline.skip count
  | "$sort" => pipeline.sort arguments
  | "$setWindowFields" => pipeline.setWindowFields arguments
  | "$addFields" => pipeline.addFields arguments
  | "$set" => pipeline.set arguments
  | "$unset" => pipeline.unset arguments
  | "$project" => pipeline.project arguments
  | "$group" => pipeline.group arguments
  | "$count" =>
    match arguments with
    | .string field => pipeline.count field
    | _ => .error (pipeline.reject name (.argument name (.expected .fieldName)))
  | "$sortByCount" => pipeline.sortByCount arguments
  | "$unwind" => pipeline.unwind arguments
  | "$replaceRoot" => do
    let expression ← pipeline.lift name (onlyArgument name "newRoot" arguments)
    pipeline.replaceRoot expression none
  | "$replaceWith" => pipeline.replaceWith arguments none
  | "$bucket" => pipeline.bucket arguments
  | "$bucketAuto" => pipeline.bucketAuto arguments
  | "$densify" => pipeline.densify arguments
  | "$fill" => pipeline.fill arguments
  | "$geoNear" => pipeline.geoNear arguments
  | "$graphLookup" => pipeline.graphLookup arguments
  | "$documents" => pipeline.documents arguments
  | "$out" | "$merge" => .error (pipeline.rejectTerminal name)
  | _ => .error (pipeline.reject name (.of (.unknownOperator name .pipeline)))

end DocTyping.Pipeline
