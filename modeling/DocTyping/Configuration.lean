import DocTyping.Files
import DocTyping.Json.Written

namespace DocTyping

/-!
# Configuration

A configuration bounds the depth of paths and relaxes two checks.  A file may
state any part of it.
-/

def defaultPathDepth : Nat := 9

def pathDepthCeiling : Nat := 32

structure Configuration where
  /-- The number of descents that a path may take. -/
  maxPathDepth : Nat := defaultPathDepth
  /-- Unwinding an undeclared field changes nothing instead of failing. -/
  lenientUnwind : Bool := false
  /-- Required fields may be removed and renamed. -/
  allowUnsetRequired : Bool := false
deriving DecidableEq, Repr, Inhabited

inductive ConfigurationError where
  | unreadable (path : String) (fault : FileFault)
  | malformed
  | depthOutOfRange (depth : Nat)
deriving DecidableEq, Repr

namespace ConfigurationError

def code : ConfigurationError → String
  | unreadable .. => "SHAPE_CONFIG_UNREADABLE"
  | malformed | depthOutOfRange _ => "SHAPE_CONFIG_INVALID"

def message : ConfigurationError → String
  | unreadable path fault => s!"failed to read config '{path}': {fault.message}"
  | malformed => "invalid config JSON: not a configuration"
  | depthOutOfRange depth =>
    s!"invalid config: max_path_depth must be between 1 and {pathDepthCeiling}, got {depth}"

end ConfigurationError

namespace Configuration

/-- The names of the parts in a file, in the order of the positional form. -/
def partNames : List String := ["max_path_depth", "lenient_unwind", "allow_unset_required"]

/-- The value of a part: `none` when it is absent, refused when it is repeated. -/
def part? (entries : List (Option String × Json.Written)) (name : String) :
    Option (Option Json.Written) :=
  match entries.filter fun entry => entry.1 == some name with
  | [] => some none
  | [(_, value)] => some (some value)
  | _ => none

def natPart? (fallback : Nat) : Option Json.Written → Option Nat
  | none => some fallback
  | some written => (written.value? 0).bind Json.uint64?

def boolPart? : Option Json.Written → Option Bool
  | none => some false
  | some written => (written.value? 0).bind Json.bool?

def ofParts? (depth lenient unset : Option Json.Written) : Option Configuration := do
  let maxPathDepth ← natPart? defaultPathDepth depth
  let lenientUnwind ← boolPart? lenient
  let allowUnsetRequired ← boolPart? unset
  return { maxPathDepth, lenientUnwind, allowUnsetRequired }

/-- Reads a configuration: an object with named parts, whose other values may be anything, or a
list of parts in order. -/
def read? : Json.Written → Option Configuration
  | .object entries => do
    if entries.any fun entry => entry.1.isNone then none
    else
      let depth ← part? entries "max_path_depth"
      let lenient ← part? entries "lenient_unwind"
      let unset ← part? entries "allow_unset_required"
      ofParts? depth lenient unset
  | .array parts =>
    if parts.length ≤ partNames.length then ofParts? parts[0]? parts[1]? parts[2]? else none
  | _ => none

def validate (config : Configuration) : Except ConfigurationError Configuration :=
  if 1 ≤ config.maxPathDepth ∧ config.maxPathDepth ≤ pathDepthCeiling then .ok config
  else .error (.depthOutOfRange config.maxPathDepth)

def ofText (text : String) : Except ConfigurationError Configuration :=
  match (Json.Written.read? text).bind read? with
  | some config => config.validate
  | none => .error .malformed

end Configuration

end DocTyping
