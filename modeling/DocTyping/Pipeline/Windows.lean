import DocTyping.Pipeline.Grouping

namespace DocTyping

/-!
# Buckets and windows

`$bucket`, `$bucketAuto`, `$densify`, `$fill` and `$setWindowFields`.  They check
their arguments and leave the schema as it is.
-/

/-- The series of preferred numbers that automatic buckets may follow. -/
def granularities : List String :=
  ["R5", "R10", "R20", "R40", "R80", "1-2-5", "E6", "E12", "E24", "E48", "E96", "E192",
    "POWERSOF2"]

def timeUnits : List String :=
  ["millisecond", "second", "minute", "hour", "day", "week", "month", "quarter", "year"]

def checkUnit (stage : String) (entries : Entries) : Checked Unit := do
  match ← textArgument? stage entries "unit" with
  | some unit => demand (timeUnits.contains unit) stage (.unknownUnit unit)
  | none => return

inductive Boundary where
  | number (value : Binary64)
  | wrappedNumber
  | text (value : String)
  | date
deriving DecidableEq, Repr

namespace Boundary

def of? : Json → Option Boundary
  | .number value => some (number value.toBinary64)
  | .string value => some (text value)
  | .object entries =>
    match Json.extendedKind? entries with
    | some .date => some date
    | some kind => if kind.isNumeric then some wrappedNumber else none
    | none => none
  | _ => none

def kind : Boundary → ScalarKind
  | number _ | wrappedNumber => .number
  | text _ => .string
  | date => .date

/-- Whether a boundary may follow another; extended literals are not compared. -/
def mayFollow : Boundary → Boundary → Bool
  | number next, number previous => previous.lt next
  | text next, text previous => previous < next
  | _, _ => true

def read (value : Json) : Checked Boundary :=
  match of? value with
  | some boundary => .ok boundary
  | none => .error (.argument "$bucket" (.boundaryForm value))

def checkAfter (previous : Boundary) : List Json → Checked Unit
  | [] => .ok ()
  | value :: rest => do
    let next ← read value
    demand (next.kind = previous.kind) "$bucket" .boundaryTypes
    demand (next.mayFollow previous) "$bucket" .boundaryOrder
    checkAfter next rest

/-- Checks a list of boundaries: at least two, all of one type, ascending. -/
def checkAll : Json → Checked Unit
  | .array (first :: second :: rest) => do
    let boundary ← read first
    checkAfter boundary (second :: rest)
  | _ => .error (.argument "$bucket" (.keyForm "boundaries" .boundaryList))

end Boundary

def Json.isPositiveInteger (value : Json) : Bool := value.int64?.any fun integer => 0 < integer

def Json.isPositive (value : Json) : Bool :=
  value.number?.any fun number => 0 < number.toBinary64.signedUnits

/-- Whether a value bounds a range: by name, or as a pair. -/
def Json.isRangeBounds : Json → Bool
  | .string text => text == "full" || text == "partition"
  | .array pair => pair.length == 2
  | _ => false

def Json.isWindowBound (value : Json) : Bool :=
  value.isNumber || value.string? == some "current" || value.string? == some "unbounded"

def Json.isWindowBounds : Json → Bool
  | .array pair => pair.length == 2 && pair.all isWindowBound
  | _ => false

def checkWindow (window : Json) : Checked Unit := do
  let entries ← objectArgument "window" window
  checkKnown "window" entries ["documents", "range", "unit"]
  let bounds ←
    match entries.get? "documents", entries.get? "range" with
    | some bounds, none => pure bounds
    | none, some bounds => pure bounds
    | _, _ => throw (.argument "window" (.exactlyOne "documents" "range"))
  demand bounds.isWindowBounds "window" (.shouldBe "bounds" .windowBounds)
  checkUnit "window" entries

def checkWindows : List (String × Json) → Checked Unit
  | [] => .ok ()
  | (key, value) :: rest => do
    if key = "window" then checkWindow value
    checkWindows rest

namespace Pipeline

def checkBucketKey (pipeline : Pipeline) (stage : String) (entries : Entries) : Checked Unit := do
  let key ← requiredArgument stage entries "groupBy"
  let _ ← pipeline.groupingKey stage key

def checkBucketOutput (pipeline : Pipeline) (stage : String) (entries : Entries) : Checked Unit :=
  checkGiven entries "output" fun output => do
    let fields ← objectArgument stage output
    let _ ← pipeline.accumulatedFields stage fields

def checkBuckets (pipeline : Pipeline) (specification : Json) : Checked Unit := do
  let entries ← objectArgument "$bucket" specification
  checkKnown "$bucket" entries ["groupBy", "boundaries", "default", "output"]
  pipeline.checkBucketKey "$bucket" entries
  Boundary.checkAll ((entries.get? "boundaries").getD .null)
  pipeline.checkBucketOutput "$bucket" entries

def checkAutoBuckets (pipeline : Pipeline) (specification : Json) : Checked Unit := do
  let entries ← objectArgument "$bucketAuto" specification
  checkKnown "$bucketAuto" entries ["groupBy", "buckets", "output", "granularity"]
  pipeline.checkBucketKey "$bucketAuto" entries
  demand ((entries.get? "buckets").any Json.isPositiveInteger) "$bucketAuto"
    (.keyForm "buckets" .positiveInteger)
  if let some name ← textArgument? "$bucketAuto" entries "granularity" then
    demand (granularities.contains name) "$bucketAuto" (.unknownGranularity name)
  pipeline.checkBucketOutput "$bucketAuto" entries

def checkPartition (pipeline : Pipeline) (stage : String) (entries : Entries) : Checked Unit :=
  checkGiven entries "partitionByFields" fun fields =>
    let refusal := Refusal.argument stage (.keyForm "partitionByFields" .pathList)
    match fields with
    | .array paths => checkTexts refusal pipeline.checkPath paths
    | _ => .error refusal

def checkRange (entries : Entries) : Checked Unit := do
  let range ← requiredArgument "$densify" entries "range"
  let range ← objectArgument "$densify" range
  checkKnown "$densify" range ["step", "unit", "bounds"]
  demand ((range.get? "step").any Json.isPositive) "$densify"
    (.keyForm "range.step" .positiveNumber)
  checkUnit "$densify" range
  match range.get? "bounds" with
  | some bounds => demand bounds.isRangeBounds "$densify" (.keyForm "bounds" .rangeBounds)
  | none => throw (.argument "$densify" (.required "range.bounds"))

def checkDensify (pipeline : Pipeline) (specification : Json) : Checked Unit := do
  let entries ← objectArgument "$densify" specification
  checkKnown "$densify" entries ["field", "partitionByFields", "range"]
  let field ← textArgument "$densify" entries "field"
  let resolved ← pipeline.resolve field
  if !Capability.numeric.admits resolved.node && !Capability.date.admits resolved.node then
    throw (.of (.incompatible "$densify" field resolved.node .numeric))
  pipeline.checkPartition "$densify" entries
  checkRange entries

/-- Checks how one field is filled: by a value, or by a method. -/
def checkFilling (pipeline : Pipeline) (sorted : Bool) (path : String) (filling : Json) :
    Checked Unit := do
  pipeline.checkPath path
  match ← objectArgument "$fill" filling with
  | [("value", value)] => pipeline.checkExpression value
  | [("method", .string "locf")] => return
  | [("method", .string "linear")] => demand sorted "$fill" .linearWithoutSort
  | [("method", .string name)] => throw (.argument "$fill" (.unknownFill name))
  | _ => Checked.within path (.error (.argument "$fill" (.fillForm path)))

def checkFillings (pipeline : Pipeline) (sorted : Bool) : List (String × Json) → Checked Unit
  | [] => .ok ()
  | (path, filling) :: rest => do
    pipeline.checkFilling sorted path filling
    pipeline.checkFillings sorted rest

def checkFill (pipeline : Pipeline) (specification : Json) : Checked Unit := do
  let entries ← objectArgument "$fill" specification
  checkKnown "$fill" entries ["sortBy", "partitionBy", "partitionByFields", "output"]
  demand (!(entries.has "partitionBy" && entries.has "partitionByFields")) "$fill"
    (.exclusive "partitionBy" "partitionByFields")
  checkGiven entries "partitionBy" pipeline.checkExpression
  pipeline.checkPartition "$fill" entries
  checkGiven entries "sortBy" (pipeline.checkSort "$fill")
  let output ← requiredArgument "$fill" entries "output"
  let output ← objectArgument "$fill" output
  pipeline.checkFillings (entries.has "sortBy") output

def checkWindowField (pipeline : Pipeline) (field : String) (definition : Json) :
    Checked Unit := do
  let _ ← fieldNames "$setWindowFields" field
  let entries ← objectArgument "$setWindowFields" definition
  checkWindows entries
  let function := Json.object (entries.filter fun entry => entry.1 != "window")
  let _ ← pipeline.accumulated "$setWindowFields" field function true

def checkWindowFields (pipeline : Pipeline) : List (String × Json) → Checked Unit
  | [] => .ok ()
  | (field, definition) :: rest => do
    pipeline.checkWindowField field definition
    pipeline.checkWindowFields rest

def checkWindowStage (pipeline : Pipeline) (specification : Json) : Checked Unit := do
  let entries ← objectArgument "$setWindowFields" specification
  checkKnown "$setWindowFields" entries ["partitionBy", "sortBy", "output"]
  checkGiven entries "partitionBy" pipeline.checkExpression
  checkGiven entries "sortBy" (pipeline.checkSort "$setWindowFields")
  let output ← requiredArgument "$setWindowFields" entries "output"
  let fields ← objectArgument "$setWindowFields" output
  pipeline.checkWindowFields fields

end Pipeline

end DocTyping
