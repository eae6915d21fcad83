import DocTyping.Pipeline.Arguments
import DocTyping.Vocabulary.Accumulator

namespace DocTyping

/-!
# Grouping

Accumulators, and the stages `$group`, `$count` and `$sortByCount`.  Their output
is a closed object in which every field is required.
-/

namespace Schema

/-- A closed object whose fields are all present and not null. -/
def record (fields : List (String × Schema)) : Schema :=
  .object (fields.foldl (fun shape field => shape.insert field.1 field.2 false) .empty)

end Schema

def AccumulatorOutput.type : AccumulatorOutput → Schema → Schema
  | number, _ => .number
  | arrayOfInner, gathered => .array gathered
  | inner, gathered => gathered

def accumulatorOf (stage field : String) (value : Json) : Checked (String × Json) :=
  let refusal := Refusal.argument stage (.accumulatorForm field value)
  match value with
  | .object [(name, argument)] =>
    if isOperatorObject [(name, argument)] then .ok (name, argument)
    else Checked.within field (.error refusal)
  | _ => Checked.within field (.error refusal)

def findAccumulator (name : String) (window : Bool) : Checked Accumulator :=
  match Accumulator.named? name with
  | some accumulator => do
    demand (window || !accumulator.windowOnly) name .windowOnly
    return accumulator
  | none => .error (.of (.unknownOperator name .accumulator))

namespace Pipeline

/-- What named arguments gather: the type of the inner one, opaque when it is left out. -/
def namedInner (pipeline : Pipeline) (accumulator : Accumulator) (allowed : List String) :
    List (String × Json) → Schema → Checked Schema
  | [], inner => .ok inner
  | (key, value) :: rest, inner =>
    if !allowed.contains key then .error (.argument accumulator.name (.unexpected key))
    else if key = "sortBy" then do
      pipeline.checkSort accumulator.name value
      pipeline.namedInner accumulator allowed rest inner
    else do
      let type ← pipeline.infer value
      let next := if accumulator.inner = some key then type else inner
      pipeline.namedInner accumulator allowed rest next

def gathered (pipeline : Pipeline) (accumulator : Accumulator) (argument : Json) :
    Checked Schema :=
  match accumulator.args, argument with
  | .expression, expression => pipeline.infer expression
  | .emptyObject, .object [] => .ok .unknown
  | .emptyObject, _ => .error (.argument accumulator.name (.expected .emptyObject))
  | .named required optional, .object entries => do
    checkRequired accumulator.name entries required
    pipeline.namedInner accumulator (required ++ optional) entries .unknown
  | .named .., _ => .error (.argument accumulator.name (.expected .namedArguments))

/-- The type of an output field; a window admits more accumulators than a group. -/
def accumulated (pipeline : Pipeline) (stage field : String) (value : Json) (window : Bool) :
    Checked Schema := do
  let (name, argument) ← accumulatorOf stage field value
  let accumulator ← findAccumulator name window
  let inner ← pipeline.gathered accumulator argument
  return accumulator.output.type inner

def accumulatedFields (pipeline : Pipeline) (stage : String) :
    List (String × Json) → Checked (List (String × Schema))
  | [] => .ok []
  | (field, value) :: rest => do
    checkFieldName stage field
    let type ← pipeline.accumulated stage field value false
    let types ← pipeline.accumulatedFields stage rest
    return (field, type) :: types

/-- The documents that groups lead to: the key, then the accumulated fields. -/
def grouped (pipeline : Pipeline) (specification : Json) : Checked Schema := do
  let entries ← objectArgument "$group" specification
  let key ← requiredArgument "$group" entries "_id"
  let type ← Checked.within "_id" (pipeline.infer key)
  let fields ← pipeline.accumulatedFields "$group" (entries.filter fun entry => entry.1 != "_id")
  return .record (("_id", type) :: fields)

def groupedByCount (pipeline : Pipeline) (key : Json) : Checked Schema := do
  let type ← pipeline.groupingKey "$sortByCount" key
  return .record [("_id", type), ("count", .number)]

end Pipeline

def counted (field : String) : Checked Schema := do
  checkFieldName "$count" field
  return .record [(field, .number)]

end DocTyping
