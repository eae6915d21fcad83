import DocTyping.Text.Name

namespace DocTyping

/-!
# Dotted paths

A path is a sequence of names, array indexes and array placeholders.  `parse`
reads the parts between the dots of a text, and `render` writes them.
-/

inductive Placeholder where
  /-- The first element that a filter matched. -/
  | first
  | every
  /-- The elements that a named array filter matches. -/
  | filtered (identifier : String)
deriving DecidableEq, Repr

inductive Segment where
  | name (text : String)
  | index (value : Nat)
  | placeholder (form : Placeholder)
deriving DecidableEq, Repr

structure FieldPath where
  segments : List Segment
deriving DecidableEq, Repr

inductive PathFlaw where
  | emptyPath
  | emptySegment
  | badIdentifier (text : String)
  | startsWithDollar (text : String)
deriving DecidableEq, Repr

inductive PathFault where
  | unknownField (segment : String)
  | notArray (segment : String)
  | depthExceeded (maxDepth : Nat)
  | placeholderRefused (segment : String)
  | malformed (flaw : PathFlaw)
deriving DecidableEq, Repr

structure PathError where
  path : String
  fault : PathFault
deriving DecidableEq, Repr

namespace PathFlaw

def message : PathFlaw → String
  | emptyPath => "empty path"
  | emptySegment => "empty segment"
  | badIdentifier text => s!"invalid array filter identifier '{text}'"
  | startsWithDollar text => s!"segment '{text}' starts with '$'"

end PathFlaw

namespace PathError

def code (error : PathError) : String :=
  match error.fault with
  | .unknownField _ => "SHAPE_UNKNOWN_FIELD"
  | .notArray _ => "SHAPE_NOT_AN_ARRAY_BUT_INDEXED"
  | .depthExceeded _ => "SHAPE_DEPTH_EXCEEDED"
  | .placeholderRefused _ => "SHAPE_PLACEHOLDER_NOT_ALLOWED"
  | .malformed _ => "SHAPE_MALFORMED_PATH"

def message (error : PathError) : String :=
  match error.fault with
  | .unknownField segment => s!"unknown field '{segment}' in path '{error.path}'"
  | .notArray segment =>
    s!"segment '{segment}' of path '{error.path}' indexes a value that is not an array"
  | .depthExceeded maxDepth => s!"path '{error.path}' exceeds the maximum depth of {maxDepth}"
  | .placeholderRefused segment =>
    s!"placeholder '{segment}' is not allowed in path '{error.path}'"
  | .malformed flaw => s!"malformed path '{error.path}': {flaw.message}"

end PathError

def Placeholder.render : Placeholder → String
  | first => "$"
  | every => "$[]"
  | filtered identifier => "$[" ++ identifier ++ "]"

namespace Segment

def render : Segment → String
  | name text => text
  | index value => toString value
  | placeholder form => form.render

def isPlaceholder : Segment → Bool
  | placeholder _ => true
  | _ => false

/-- The first number that is no index. -/
def indexLimit : Nat := 18446744073709551616

def decimal (digits : List Char) : Nat :=
  digits.foldl (fun total digit => total * 10 + (digit.toNat - '0'.toNat)) 0

/-- Reads a part that starts with a dollar sign; `rest` is what follows the sign. -/
def parseDollar (part : String) (rest : List Char) : Except PathFlaw Segment :=
  match rest with
  | [] => .ok (.placeholder .first)
  | ['[', ']'] => .ok (.placeholder .every)
  | '[' :: inner =>
    if inner.getLast? = some ']' then
      let identifier := String.ofList inner.dropLast
      if Text.isIdentifier identifier then .ok (.placeholder (.filtered identifier))
      else .error (.badIdentifier identifier)
    else .error (.startsWithDollar part)
  | _ => .error (.startsWithDollar part)

/-- Reads one part of a path.  Digits are an index, or a name when they exceed the range. -/
def parse (part : String) : Except PathFlaw Segment :=
  match part.toList with
  | [] => .error .emptySegment
  | '$' :: rest => parseDollar part rest
  | chars =>
    if chars.all Char.isDigit ∧ decimal chars < indexLimit then .ok (.index (decimal chars))
    else .ok (.name part)

def parseAll : List String → Except PathFlaw (List Segment)
  | [] => .ok []
  | part :: rest => do
    let segment ← parse part
    let segments ← parseAll rest
    return segment :: segments

end Segment

namespace FieldPath

def parse (text : String) : Except PathError FieldPath :=
  if text.isEmpty then .error ⟨"", .malformed .emptyPath⟩
  else
    match Segment.parseAll (Text.splitDots text) with
    | .ok segments => .ok ⟨segments⟩
    | .error flaw => .error ⟨text, .malformed flaw⟩

def render (path : FieldPath) : String := Text.joinDots (path.segments.map Segment.render)

def ofNames (names : List String) : FieldPath := ⟨names.map Segment.name⟩

def hasPlaceholder (path : FieldPath) : Bool := path.segments.any Segment.isPlaceholder

/-- The first step of a path, if it is a name. -/
def head? (path : FieldPath) : Option String :=
  match path.segments with
  | .name text :: _ => some text
  | _ => none

/-- Whether a path equals another or leads to one of its ancestors. -/
def leadsTo (path other : FieldPath) : Bool := path.segments.isPrefixOf other.segments

end FieldPath

end DocTyping
