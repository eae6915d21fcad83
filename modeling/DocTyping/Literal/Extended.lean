import DocTyping.Json.Basic
import DocTyping.Schema.Basic
import DocTyping.Text.Name
import DocTyping.Text.Timestamp

namespace DocTyping.Json

/-!
# Extended literals

A scalar that JSON cannot express is written as an object with one key, such as
a date or an object identifier.
-/

/-- Whether a payload can stand for a date: a timestamp, an integer count of milliseconds, or
such a count as a wrapped long. -/
def isDatePayload : Json → Bool
  | .string text => Text.isTimestamp text
  | .number value => value.int64?.isSome
  | .object entries => Keyed.has entries "$numberLong"
  | _ => false

/-- The kind that a wrapper key announces, if its payload is of the right form. -/
def wrapperKind? (key : String) (payload : Json) : Option ScalarKind :=
  match key with
  | "$date" => if isDatePayload payload then some .date else none
  | "$oid" => if payload.string?.any Text.isObjectId then some .objectId else none
  | "$numberInt" => some .int
  | "$numberLong" => some .long
  | "$numberDouble" => some .double
  | "$numberDecimal" => some .decimal
  | "$timestamp" => some .timestamp
  | "$binary" => some .binData
  | "$regularExpression" => some .regex
  | _ => none

def extendedKind? : List (String × Json) → Option ScalarKind
  | [(key, payload)] => wrapperKind? key payload
  | _ => none

def extended? (value : Json) : Option ScalarKind := value.object?.bind extendedKind?

def isExtended (value : Json) : Bool := value.extended?.isSome

def isRegex (value : Json) : Bool := value.extended? == some .regex

def label : Json → String
  | .null => "null"
  | .bool _ => "bool"
  | .number _ => "number"
  | .string _ => "string"
  | .array _ => "array"
  | .object entries => ((extendedKind? entries).map ScalarKind.name).getD "object"

end DocTyping.Json
