import DocTyping.Pipeline.Arguments
import DocTyping.Schema.Reshape

namespace DocTyping

/-!
# Unwinding

`$unwind` makes one document per element of an array.
-/

structure Unwinding where
  reference : String
  /-- The path at which the position of the element is written. -/
  index : Option String := none
  /-- Documents without elements are kept. -/
  preserve : Bool := false

namespace Unwinding

def preserveFlag (entries : Entries) : Checked Bool :=
  match entries.get? "preserveNullAndEmptyArrays" with
  | some (.bool flag) => .ok flag
  | some _ => .error (.argument "$unwind" (.keyForm "preserveNullAndEmptyArrays" .boolean))
  | none => .ok false

def read : Json → Checked Unwinding
  | .string reference => .ok { reference }
  | .object entries => do
    checkKnown "$unwind" entries ["path", "includeArrayIndex", "preserveNullAndEmptyArrays"]
    let reference ← textArgument "$unwind" entries "path"
    let index ← textArgument? "$unwind" entries "includeArrayIndex"
    let preserve ← preserveFlag entries
    return { reference, index, preserve }
  | other => .error (.argument "$unwind" (.expectedNot .pathOrOptions other))

/-- The path that is referred to: what follows exactly one dollar sign. -/
def path (unwinding : Unwinding) : Checked String :=
  let refusal := Refusal.argument "$unwind" (.unwindPath unwinding.reference)
  match unwinding.reference.toList with
  | '$' :: '$' :: _ => .error refusal
  | '$' :: path => .ok (String.ofList path)
  | _ => .error refusal

def writeIndex (unwinding : Unwinding) (schema : Schema) : Checked Schema :=
  match unwinding.index with
  | some index => do
    let names ← fieldNames "$unwind" index
    return Schema.setPath (.scalar .long) { nullable := unwinding.preserve } names schema
  | none => .ok schema

end Unwinding

def Refusal.isUnknownField (refusal : Refusal) : Bool :=
  match refusal.cause with
  | .path ⟨_, .unknownField _⟩ => true
  | _ => false

namespace Pipeline

/-- The schema with an array replaced by its element.  Any other field stays as it is, and so does
the schema where an undeclared field is tolerated. -/
def withoutArray (pipeline : Pipeline) (path : String) (names : List String) (slot : Slot) :
    Checked Schema :=
  match pipeline.resolve path with
  | .ok resolved =>
    .ok (if resolved.node.element?.isSome then Schema.unwindPath slot names pipeline.schema
      else pipeline.schema)
  | .error refusal =>
    if refusal.isUnknownField && pipeline.config.lenientUnwind then .ok pipeline.schema
    else .error refusal

def unwound (pipeline : Pipeline) (specification : Json) : Checked Schema := do
  let unwinding ← Unwinding.read specification
  let path ← unwinding.path
  let names ← fieldNames "$unwind" path
  let schema ← pipeline.withoutArray path names { optional := unwinding.preserve }
  unwinding.writeIndex schema

end Pipeline

end DocTyping
