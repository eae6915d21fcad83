import DocTyping.Expression.Arguments
import DocTyping.Literal.Conformance
import DocTyping.Vocabulary.FilterOperator

namespace DocTyping

/-!
# Arguments of filter operators

What filter operators ask of arguments that hold no filter and no expression.
-/

structure FilterTarget where
  path : String
  node : Schema
  /-- The field may be absent or null, so null is a fitting literal. -/
  absentAllowed : Bool

namespace Json

def isCount (value : Json) : Bool := value.uint64?.isSome

def isDistance (value : Json) : Bool :=
  value.number?.any fun number => 0 ≤ number.toBinary64.signedUnits

def isNonZero (value : Json) : Bool :=
  value.number?.any fun number => !number.toBinary64.isZero

def isModPair : Json → Bool
  | .array [divisor, remainder] => divisor.isNonZero && remainder.isNumber
  | _ => false

/-- Whether a value selects bits: positions, a mask, or binary data. -/
def isBitMask : Json → Bool
  | .array positions => positions.all isCount
  | .object entries => extendedKind? entries == some .binData
  | value => value.isCount

def isRegexFlags (value : Json) : Bool :=
  value.string?.any fun flags => flags.toList.all fun flag => "imxsu".toList.contains flag

def isGeometryObject : Json → Bool
  | .object [(key, shape)] => key == "$geometry" && shape.isGeometry
  | _ => false

def isGeometryShape : Json → Bool
  | .object [(key, shape)] => if key = "$geometry" then shape.isPolygon else isLegacyShape key shape
  | _ => false

end Json

/-- Whether a pattern may stand for a value: on strings and arrays of strings. -/
def Schema.admitsPattern (schema : Schema) : Bool :=
  Capability.string.admits schema || schema.element?.any Capability.string.admits

namespace FilterTarget

/-- Whether a literal fits a field: as a value of it, as one of its elements, or as a pattern
where patterns are allowed. -/
def fits (target : FilterTarget) (allowPattern : Bool) (value : Json) : Bool :=
  target.node.admits value target.absentAllowed .full
    || target.node.element?.any (fun element => element.admits value false .full)
    || (allowPattern && value.isRegex && target.node.admitsPattern)

def checkLiteral (target : FilterTarget) (allowPattern : Bool) (value : Json) : Checked Unit :=
  if target.fits allowPattern value then .ok ()
  else .error (.of (.mismatch target.path target.node value))

def checkLiterals (target : FilterTarget) : List Json → Checked Unit
  | [] => .ok ()
  | value :: rest => do
    target.checkLiteral true value
    target.checkLiterals rest

/-- The element of the field's array; opaque for any other field. -/
def element (target : FilterTarget) : Schema := target.node.element?.getD .unknown

def ofElement (target : FilterTarget) : FilterTarget := ⟨target.path, target.element, false⟩

def checkElement (target : FilterTarget) (value : Json) : Checked Unit :=
  if target.element.admits value false .full
      || (value.isRegex && Capability.string.admits target.element) then .ok ()
  else .error (.of (.mismatch target.path target.element value))

def checkPatternNegation (target : FilterTarget) : Checked Unit :=
  if target.node.admitsPattern then .ok ()
  else .error (.of (.incompatible "$not" target.path target.node .string))

def operator (target : FilterTarget) (name : String) : Checked FilterOperator :=
  match FilterOperator.named? name with
  | none => .error (.of (.unknownOperator name .filterCondition))
  | some operator =>
    if operator.capability.admits target.node then .ok operator
    else .error (.of (.incompatible name target.path target.node operator.capability))

def checkSiblings (target : FilterTarget) (entries : List (String × Json)) : Checked Unit :=
  if Keyed.has entries "$options" && !Keyed.has entries "$regex" then
    Checked.within target.path (.error (.argument "$options" .optionsWithoutRegex))
  else .ok ()

end FilterTarget

def checkNearPart (operator key : String) (value : Json) : Checked Unit :=
  match key with
  | "$geometry" => .ok ()
  | "$maxDistance" | "$minDistance" => demand value.isDistance operator .negativeDistance
  | _ => .error (.argument operator (.unexpected key))

def checkNearParts (operator : String) : List (String × Json) → Checked Unit
  | [] => .ok ()
  | (key, value) :: rest => do
    checkNearPart operator key value
    checkNearParts operator rest

/-- Checks a legacy coordinate list, or a point with bounds on the distance. -/
def checkNear (operator : String) (argument : Json) : Checked Unit :=
  if argument.isCoordinatePair then .ok ()
  else
    match argument with
    | .object entries => do
      demand ((entries.lookup "$geometry").any Json.isPoint) operator
        (.keyForm "$geometry" .geoJsonPoint)
      checkNearParts operator entries
    | _ => .error (.argument operator (.expected .point))

def checkSearchPart (key : String) (value : Json) : Checked Unit :=
  match key with
  | "$search" | "$language" => demand value.isString "$text" (.invalidKeyValue key)
  | "$caseSensitive" | "$diacriticSensitive" =>
    demand value.bool?.isSome "$text" (.invalidKeyValue key)
  | _ => .error (.argument "$text" (.unexpected key))

def checkSearchParts : List (String × Json) → Checked Unit
  | [] => .ok ()
  | (key, value) :: rest => do
    checkSearchPart key value
    checkSearchParts rest

def checkSearch (argument : Json) : Checked Unit :=
  match argument with
  | .object entries => do
    demand ((entries.lookup "$search").any Json.isString) "$text" (.keyForm "$search" .string)
    checkSearchParts entries
  | _ => .error (.argument "$text" (.expected .object))

def checkRootArgument (operator : String) (argument : Json) : Checked Unit :=
  match operator with
  | "$text" => checkSearch argument
  | "$where" => demand argument.isString operator (.expected .scriptString)
  | "$comment" =>
    demand (argument.isString || argument.object?.isSome) operator (.expected .stringOrObject)
  | _ => demand argument.object?.isSome operator (.expected .schemaObject)

/-- Checks an argument that holds no filter and no expression. -/
def FilterArgument.check (form : FilterArgument) (operator : String) (target : FilterTarget)
    (argument : Json) : Checked Unit :=
  match form with
  | fieldValue => target.checkLiteral false argument
  | fieldValueOrPattern => target.checkLiteral true argument
  | fieldValues =>
    match argument with
    | .array items => target.checkLiterals items
    | _ => .error (.argument operator (.expected .valueList))
  | bool => demand (argument.bool?.isSome || argument.isNumber) operator (.expected .boolean)
  | typeSpec => demand (StoredType.isSpec argument) operator (.expected .typeSpec)
  | count => demand argument.isCount operator (.expected .nonNegativeInteger)
  | pattern => demand (argument.isString || argument.isRegex) operator (.expected .pattern)
  | regexOptions => demand argument.isRegexFlags operator (.expected .regexFlags)
  | modPair => demand argument.isModPair operator (.expected .modPair)
  | bitMask => demand argument.isBitMask operator (.expected .bitMask)
  | geoWithin => demand argument.isGeometryShape operator (.expected .geometryShape)
  | geometry => demand argument.isGeometryObject operator (.expected .geometryObject)
  | near => checkNear operator argument
  | distance => demand argument.isDistance operator (.expected .distance)
  | jsonSchema => demand argument.object?.isSome operator (.expected .schemaObject)
  | emptyObject =>
    demand (argument.object?.any List.isEmpty) operator (.expected .emptyObject)
  | elementValues | elementFilter | expression | negation => .ok ()

end DocTyping
