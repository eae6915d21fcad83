import DocTyping.Path.Resolution

namespace DocTyping

/-!
# Path patterns

`Schema.patterns` lists the paths into a schema.  A wildcard stands for any
index, any key of an open object or any identifier of an array filter.  Moves
are counted as resolution counts them, so each pattern resolves once its
wildcards are filled in with names that no object declares, and nothing deeper
is listed.
-/

inductive PlaceholderPattern where
  | first
  | every
  | anyIdentifier
deriving DecidableEq, Repr

inductive PatternSegment where
  | name (text : String)
  | anyIndex
  | anyKey
  | placeholder (form : PlaceholderPattern)
deriving DecidableEq, Repr

structure PathPattern where
  segments : List PatternSegment
deriving DecidableEq, Repr

namespace PlaceholderPattern

/-- Every form, in the order of listing. -/
def all : List PlaceholderPattern := [first, every, anyIdentifier]

def accepts : PlaceholderPattern → Placeholder → Bool
  | first, .first => true
  | every, .every => true
  | anyIdentifier, .filtered _ => true
  | _, _ => false

def chosen : PlaceholderPattern → Placeholder
  | first => .first
  | every => .every
  | anyIdentifier => .filtered "elem"

end PlaceholderPattern

namespace PatternSegment

def render : PatternSegment → String
  | name text => text
  | anyIndex => "<n>"
  | anyKey => "<key>"
  | placeholder .first => "$"
  | placeholder .every => "$[]"
  | placeholder .anyIdentifier => "$[<id>]"

/-- Whether a step of a path is an instance.  Any key may be written as an index. -/
def accepts : PatternSegment → Segment → Bool
  | name text, .name other => text == other
  | anyIndex, .index _ => true
  | anyKey, .name _ => true
  | anyKey, .index _ => true
  | placeholder form, .placeholder other => form.accepts other
  | _, _ => false

def instantiate : PatternSegment → Segment
  | name text => .name text
  | anyIndex => .index 0
  | anyKey => .name "anyKey"
  | placeholder form => .placeholder form.chosen

def acceptAll : List PatternSegment → List Segment → Bool
  | [], [] => true
  | pattern :: patterns, segment :: segments =>
    pattern.accepts segment && acceptAll patterns segments
  | _, _ => false

end PatternSegment

namespace PathPattern

def render (pattern : PathPattern) : String :=
  Text.joinDots (pattern.segments.map PatternSegment.render)

def accepts (pattern : PathPattern) (path : FieldPath) : Bool :=
  PatternSegment.acceptAll pattern.segments path.segments

def instantiate (pattern : PathPattern) : FieldPath :=
  ⟨pattern.segments.map PatternSegment.instantiate⟩

end PathPattern

namespace Schema

/-- The steps that enter the elements of an array. -/
def elementSteps (placeholders : Bool) : List PatternSegment :=
  .anyIndex :: if placeholders then PlaceholderPattern.all.map .placeholder else []

/-- The patterns below a place, in order and with repetitions.  `above` leads to the place;
`budget` bounds the moves. -/
def patternsBelow (placeholders : Bool) :
    Nat → Schema → List PatternSegment → List (List PatternSegment)
  | 0, _, _ => []
  | _ + 1, .scalar _, _ => []
  | budget + 1, .object shape, above =>
    let below (step : PatternSegment) (child : Schema) :=
      (above ++ [step]) :: patternsBelow placeholders budget child (above ++ [step])
    (shape.fields.flatMap fun field => below (.name field.name) field.node)
      ++ (shape.additional.map (below .anyKey)).getD []
  | budget + 1, .array element, above =>
    if above.isEmpty then []
    else
      ((elementSteps placeholders).flatMap fun step =>
          (above ++ [step]) :: patternsBelow placeholders budget element (above ++ [step]))
        ++ patternsBelow placeholders budget element above

def firstOccurrences {α : Type} [BEq α] (items : List α) : List α :=
  (items.foldl (fun kept item => if kept.contains item then kept else item :: kept) []).reverse

def patterns (root : Schema) (options : ResolveOptions) : List PathPattern :=
  (firstOccurrences (patternsBelow options.allowPlaceholders options.maxDepth root [])).map
    PathPattern.mk

end Schema

end DocTyping
