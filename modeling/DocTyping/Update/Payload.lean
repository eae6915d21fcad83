import DocTyping.Filter.Check
import DocTyping.Vocabulary.UpdateOperator

namespace DocTyping

/-!
# Payloads of updates

What an update operator asks of the value that it is given for a path.
-/

def pushModifiers : List String := ["$each", "$position", "$slice", "$sort"]

def setModifiers : List String := ["$each"]

namespace Json

/-- Whether a value is a number, plain or wrapped. -/
def isNumericLiteral (value : Json) : Bool :=
  value.isNumber || value.extended?.any ScalarKind.isNumeric

def isUnitDirection (value : Json) : Bool := value.int64? == some 1 || value.int64? == some (-1)

def isUnsetMarker (value : Json) : Bool :=
  value.bool?.isSome || value.string? == some "" || value.int64? == some 1

def isBitwiseOperation : Json → Bool
  | .object entries =>
    !entries.isEmpty && entries.all fun (key, operand) =>
      ["and", "or", "xor"].contains key && operand.int64?.isSome
  | _ => false

def dateRequest? : Json → Option ScalarKind
  | .bool true => some .date
  | .object [("$type", .string "date")] => some .date
  | .object [("$type", .string "timestamp")] => some .timestamp
  | _ => none

end Json

structure UpdateTarget where
  path : FieldPath
  arrival : Arrival

namespace UpdateTarget

def node (target : UpdateTarget) : Schema := target.arrival.node

def text (target : UpdateTarget) : String := target.path.render

/-- The element of a target's array; opaque for any other target. -/
def element (target : UpdateTarget) : Schema := target.node.element?.getD .unknown

end UpdateTarget

def expectConforming (path : String) (schema : Schema) (value : Json) (nullable : Bool)
    (presence : Presence) : Checked Unit :=
  if schema.admits value nullable presence then .ok ()
  else .error (.of (.mismatch path schema value))

def expectAllConforming (path : String) (element : Schema) (presence : Presence) :
    List Json → Checked Unit
  | [] => .ok ()
  | item :: rest => do
    expectConforming path element item false presence
    expectAllConforming path element presence rest

def checkElementSort (config : Configuration) (element : Schema) :
    List (String × Json) → Checked Unit
  | [] => .ok ()
  | (key, direction) :: rest => do
    let _ ← resolveChecked element key config.resolveOptions
    demand direction.isUnitDirection "$sort" .sortDirections
    checkElementSort config element rest

/-- Checks the sort of a push: a direction, or keys of document elements. -/
def checkPushSort (config : Configuration) (element : Schema) (sort : Json) : Checked Unit :=
  if sort.isUnitDirection then .ok ()
  else
    match sort with
    | .object (key :: keys) =>
      if element.isObject then checkElementSort config element (key :: keys)
      else .error (.argument "$sort" (.expected .pushSort))
    | _ => .error (.argument "$sort" (.expected .pushSort))

def checkIntegerModifier (operator : String) (modifiers : List (String × Json)) (key : String) :
    Checked Unit :=
  demand (((modifiers.lookup key).map fun value => value.int64?.isSome).getD true) operator
    (.keyForm key .integer)

def checkModifiers (config : Configuration) (operator : String) (allowed : List String)
    (target : UpdateTarget) (modifiers : List (String × Json)) : Checked Unit := do
  match modifiers.find? fun entry => !allowed.contains entry.1 with
  | some (key, _) => throw (.argument operator (.unexpectedModifier key))
  | none => pure ()
  match modifiers.lookup "$each" with
  | some (.array items) =>
    expectAllConforming target.text target.element (Presence.suiting target.element) items
  | _ => throw (.argument operator (.keyForm "$each" .array))
  checkIntegerModifier operator modifiers "$position"
  checkIntegerModifier operator modifiers "$slice"
  match modifiers.lookup "$sort" with
  | some sort => checkPushSort config target.element sort
  | none => pure ()

/-- Checks an insertion into an array: an element, or elements with modifiers. -/
def checkInsertion (config : Configuration) (operator : String) (allowed : List String)
    (target : UpdateTarget) (payload : Json) : Checked Unit :=
  match payload with
  | .object entries =>
    if hasOperatorKey entries && (Json.extendedKind? entries).isNone then
      checkModifiers config operator allowed target entries
    else
      expectConforming target.text target.element payload false (Presence.suiting target.element)
  | value =>
    expectConforming target.text target.element value false (Presence.suiting target.element)

/-- The name under which the elements of an array stand in a document of their own. -/
def elementName : String := "value"

/-- Checks what is pulled from an array: operators on an element, a filter on document
elements, or an element. -/
def checkPull (config : Configuration) (target : UpdateTarget) (payload : Json) : Checked Unit :=
  match payload with
  | .object entries =>
    if isOperatorObject entries then
      Checked.within target.text <|
        (Json.object [(elementName, payload)]).checkFilter { config }
          (closedObject [(elementName, target.element)])
    else if (Json.extendedKind? entries).isNone && target.element.isObject then
      payload.checkFilter { config } target.element
    else expectConforming target.text target.element payload false .full
  | value => expectConforming target.text target.element value false .full

/-- Checks the current date as payload: the field has to be of the kind asked for. -/
def checkCurrentDate (target : UpdateTarget) (payload : Json) : Checked Unit :=
  match payload.dateRequest? with
  | none => .error (.argument "$currentDate" (.expected .currentDate))
  | some kind =>
    if target.node.scalarKind? = some kind then .ok ()
    else .error (.of (.mismatch target.text target.node payload))

/-- Checks a payload that names no other path. -/
def UpdatePayload.check (form : UpdatePayload) (config : Configuration) (operator : String)
    (target : UpdateTarget) (payload : Json) : Checked Unit :=
  match form with
  | value =>
    expectConforming target.text target.node payload target.arrival.nullable
      (Presence.suiting target.node)
  | insertValue =>
    expectConforming target.text target.node payload target.arrival.nullable .full
  | number =>
    if payload.isNumericLiteral then .ok ()
    else .error (.of (.mismatch target.text target.node payload))
  | bitwise => demand payload.isBitwiseOperation "$bit" (.expected .bitwiseOperation)
  | currentDate => checkCurrentDate target payload
  | unsetMarker => demand payload.isUnsetMarker operator (.expected .unsetMarker)
  | push => checkInsertion config operator pushModifiers target payload
  | addToSet => checkInsertion config operator setModifiers target payload
  | pull => checkPull config target payload
  | pullAll =>
    match payload with
    | .array items => expectAllConforming target.text target.element .full items
    | _ => .error (.argument operator (.expected .valueList))
  | pop => demand payload.isUnitDirection operator (.expected .unitDirection)
  | renameTarget => .ok ()

end DocTyping
