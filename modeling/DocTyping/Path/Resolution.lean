import DocTyping.Path.Basic
import DocTyping.Schema.Basic

namespace DocTyping

/-!
# Resolution

A path is walked through a schema.  A name enters a field, an index or a
placeholder enters the elements of an array, and a name in front of an array
skips the array level and keeps its place in the path.  Every one of these moves
spends one level of the depth budget.  An opaque schema ends the walk, whatever
remains of the path.
-/

structure ResolveOptions where
  allowPlaceholders : Bool := false
  /-- A value found across elements counts as an array of values. -/
  checkInArray : Bool := false
  /-- The number of moves that a path may take. -/
  maxDepth : Nat := 9
deriving DecidableEq, Repr

structure Arrival where
  node : Schema
  traversedArray : Bool := false
  /-- An array level was passed without naming one element. -/
  inArray : Bool := false
  /-- The last field may be absent. -/
  optional : Bool := false
  /-- The last field may hold null. -/
  nullable : Bool := false

structure Resolved where
  path : FieldPath
  arrival : Arrival
  checkInArray : Bool

namespace Arrival

def enterIndex (arrival : Arrival) (element : Schema) : Arrival :=
  { arrival with node := element, traversedArray := true, optional := false, nullable := false }

def enterElements (arrival : Arrival) (element : Schema) : Arrival :=
  { arrival.enterIndex element with inArray := true }

/-- Skips an array level; the flags of the field that holds the array stay. -/
def skipArray (arrival : Arrival) (element : Schema) : Arrival :=
  { arrival with node := element, traversedArray := true, inArray := true }

/-- Enters a field of an object.  An undeclared key may be absent. -/
def enterField (arrival : Arrival) (shape : Shape Schema) (name : String) (child : Schema) :
    Arrival :=
  { arrival with
    node := child
    optional := shape.isOptional name || !shape.declares name
    nullable := shape.isNullable name }

/-- Stops at an opaque schema with steps left to take. -/
def stopOpaque (arrival : Arrival) : Arrival :=
  { arrival with optional := true, nullable := false }

end Arrival

/-- Walks the steps that are left, within a budget of moves. -/
def walk (options : ResolveOptions) : Nat → List Segment → Arrival → Except PathFault Arrival
  | _, [], arrival => .ok arrival
  | 0, _ :: _, _ => .error (.depthExceeded options.maxDepth)
  | budget + 1, segment :: rest, arrival =>
    match arrival.node, segment with
    | .array element, .index _ => walk options budget rest (arrival.enterIndex element)
    | .array element, .placeholder _ =>
      if options.allowPlaceholders then walk options budget rest (arrival.enterElements element)
      else .error (.placeholderRefused segment.render)
    | .array element, .name _ =>
      walk options budget (segment :: rest) (arrival.skipArray element)
    | .object shape, .name name =>
      match shape.child? name with
      | some child => walk options budget rest (arrival.enterField shape name child)
      | none => .error (.unknownField name)
    | .object shape, .index value =>
      match shape.child? (toString value) with
      | some child => walk options budget rest (arrival.enterField shape (toString value) child)
      | none => .error (.notArray segment.render)
    | _, .placeholder _ =>
      if options.allowPlaceholders then .error (.notArray segment.render)
      else .error (.placeholderRefused segment.render)
    | .scalar .unknown, _ => .ok arrival.stopOpaque
    | .scalar _, .index _ => .error (.notArray segment.render)
    | .scalar _, .name name => .error (.unknownField name)

namespace FieldPath

def resolve (path : FieldPath) (root : Schema) (options : ResolveOptions) :
    Except PathError Resolved :=
  if path.segments.isEmpty then .error ⟨"", .malformed .emptyPath⟩
  else
    match walk options options.maxDepth path.segments { node := root } with
    | .ok arrival => .ok ⟨path, arrival, options.checkInArray⟩
    | .error fault => .error ⟨path.render, fault⟩

end FieldPath

def resolveText (root : Schema) (text : String) (options : ResolveOptions) :
    Except PathError Resolved := do
  let path ← FieldPath.parse text
  path.resolve root options

namespace Resolved

def node (resolved : Resolved) : Schema := resolved.arrival.node

def valueType (resolved : Resolved) : Schema :=
  if resolved.checkInArray && resolved.arrival.inArray then .array resolved.node else resolved.node

end Resolved

end DocTyping
