import DocTyping.Literal.Extended
import DocTyping.Path.Resolution
import DocTyping.Schema.Loading
import DocTyping.Vocabulary.Capability

namespace DocTyping

/-!
# Refusals

Why a filter, an update, an expression or a stage is refused.  A refusal is a
cause; its code, its wording and the path and operator that it concerns are read
off the cause.
-/

inductive ArgumentForm where
  | object
  | array
  | string
  | boolean
  | integer
  | nonEmptyString
  | nonEmptyArray
  | emptyObject
  | positiveInteger
  | nonNegativeInteger
  | positiveNumber
  | nonNegativeNumber
  | valueList
  | namedArguments
  | argumentList
  | filterObject
  | filterList
  | scriptString
  | stringOrObject
  | schemaObject
  | typeSpec
  | pattern
  | regexFlags
  | modPair
  | bitMask
  | geometryObject
  | geometryShape
  | distance
  | point
  | geoJsonPoint
  | geoJsonPointOrPair
  | updateOperators
  | pathsToValues
  | unsetMarker
  | unitDirection
  | destinationPath
  | pushSort
  | bitwiseOperation
  | currentDate
  | stageDocument
  | stageList
  | sortObject
  | pathOrOptions
  | documentList
  | fieldObject
  | pathOrList
  | pathList
  | groupingKey
  | fieldName
  | unionSource
  | collectionSpace
  | boundaryList
  | windowBounds
  | rangeBounds
deriving DecidableEq, Repr

def ArgumentForm.text : ArgumentForm → String
  | object => "an object"
  | array => "an array"
  | string => "a string"
  | boolean => "a boolean"
  | integer => "an integer"
  | nonEmptyString => "a non-empty string"
  | nonEmptyArray => "a non-empty array"
  | emptyObject => "\x7b\x7d"
  | positiveInteger => "a positive integer"
  | nonNegativeInteger => "a non-negative integer"
  | positiveNumber => "a positive number"
  | nonNegativeNumber => "a non-negative number"
  | valueList => "an array of values"
  | namedArguments => "an object of named arguments"
  | argumentList => "an array of arguments"
  | filterObject => "a filter object"
  | filterList => "a non-empty array of filters"
  | scriptString => "a JavaScript string"
  | stringOrObject => "a string or object"
  | schemaObject => "a schema object"
  | typeSpec => "a BSON type alias, code, or array of those"
  | pattern => "a pattern string or regular expression"
  | regexFlags => "flags drawn from 'imxsu'"
  | modPair => "[divisor, remainder] with a non-zero divisor"
  | bitMask => "a bit mask, an array of bit positions, or binData"
  | geometryObject => "\x7b$geometry: <GeoJSON>\x7d"
  | geometryShape => "a $geometry polygon or one of $box, $polygon, $center, $centerSphere"
  | distance => "a non-negative distance"
  | point => "a point"
  | geoJsonPoint => "a GeoJSON point"
  | geoJsonPointOrPair => "a GeoJSON point or a coordinate pair"
  | updateOperators => "a non-empty object of update operators"
  | pathsToValues => "an object mapping paths to values"
  | unsetMarker => "\"\", 1 or a boolean"
  | unitDirection => "1 or -1"
  | destinationPath => "a destination path string"
  | pushSort => "1, -1, or a sort document over object elements"
  | bitwiseOperation => "\x7band|or|xor: <integer>\x7d"
  | currentDate => "true or \x7b$type: \"date\"|\"timestamp\"\x7d"
  | stageDocument => "a stage document"
  | stageList => "an array of stages"
  | sortObject => "a non-empty sort object"
  | pathOrOptions => "a field path or an options object"
  | documentList => "an array of documents"
  | fieldObject => "a non-empty object of fields"
  | pathOrList => "a path or a non-empty list of paths"
  | pathList => "an array of paths"
  | groupingKey => "a field path or an expression object"
  | fieldName => "a field name"
  | unionSource => "a collection name or \x7bcoll, pipeline\x7d"
  | collectionSpace => "a collection name or \x7bdb, coll\x7d"
  | boundaryList => "an array of at least two values"
  | windowBounds => "a [lower, upper] pair of numbers, \"current\" or \"unbounded\""
  | rangeBounds => "\"full\", \"partition\" or a [lower, upper] pair"

inductive ArgumentFlaw where
  | expected (form : ArgumentForm)
  | expectedNot (form : ArgumentForm) (found : Json)
  | unexpected (key : String)
  | unexpectedModifier (key : String)
  | missing (key : String)
  | required (key : String)
  | keyForm (key : String) (form : ArgumentForm)
  | keyFormNot (key : String) (form : ArgumentForm) (found : Json)
  | invalidKeyValue (key : String)
  | invalidChoice (key : String) (found : Json)
  | exactlyOne (first second : String)
  | exclusive (first second : String)
  | together (first second : String)
  | needs (key other : String)
  | arity (least : Nat) (most : Option Nat) (count : Nat)
  | singleArity (count : Nat)
  | condArity (count : Nat)
  | undefinedVariable
  | variableForm (found : Json)
  | variableName (name : String)
  | bindingName (name : String)
  | dottedFieldName (name : String)
  | mixedExpression
  | severalOperators
  | mixedCondition (path : String)
  | optionsWithoutRegex
  | scalarElements
  | negativeDistance
  | immutableId
  | renameFromArray
  | renameIntoArray
  | renameType (destination : String) (target source : Schema)
  | sortDirections
  | stageName (name : String)
  | stageKeys (count : Nat)
  | positional (segment : Segment) (path : String)
  | fieldName (name : String)
  | metaSort (path : String)
  | sortDirection (path : String) (found : Json)
  | unwindPath (path : String)
  | noReplacement
  | replacementType (found : Schema)
  | documentForm (found : Json)
  | documentType (found : Schema)
  | collision (first second : String)
  | mixedProjection (path : String)
  | pathNotString
  | mergeKeyNotString
  | accumulatorForm (field : String) (found : Json)
  | windowOnly
  | boundaryForm (found : Json)
  | boundaryTypes
  | boundaryOrder
  | unknownGranularity (name : String)
  | unknownUnit (name : String)
  | unknownFill (name : String)
  | linearWithoutSort
  | fillForm (path : String)
  | nestedTerminal (stage : String)
  | lookupSource
  | shouldBe (what : String) (form : ArgumentForm)
  | notFirst
  | branchForm (branch : String)
  | branchStage (branch stage : String)
  | noBranch
  | duplicateBranch (branch : String)
deriving Repr

def arityText (least : Nat) (most : Option Nat) : String :=
  match most with
  | none => s!"at least {least}"
  | some most => if most = least then toString least else s!"{least} to {most}"

def ArgumentFlaw.message : ArgumentFlaw → String
  | expected form => s!"expected {form.text}"
  | expectedNot form found => s!"expected {form.text}, found {found.label}"
  | unexpected key => s!"unexpected argument '{key}'"
  | unexpectedModifier key => s!"unexpected modifier '{key}'"
  | missing key => s!"missing required argument '{key}'"
  | required key => s!"'{key}' is required"
  | keyForm key form => s!"'{key}' must be {form.text}"
  | keyFormNot key form found => s!"'{key}' must be {form.text}, found {found.label}"
  | invalidKeyValue key => s!"invalid value for '{key}'"
  | invalidChoice key found => s!"invalid '{key}' value {found.label}"
  | exactlyOne first second => s!"exactly one of '{first}' or '{second}' is required"
  | exclusive first second => s!"'{first}' and '{second}' are mutually exclusive"
  | together first second => s!"'{first}' and '{second}' must be given together"
  | needs key other => s!"'{key}' requires '{other}'"
  | arity least most count => s!"expected {arityText least most} arguments, found {count}"
  | singleArity count => s!"expected 1 argument, found {count}"
  | condArity count => s!"expected [if, then, else], found {count} elements"
  | undefinedVariable => "variable is not defined in this scope"
  | variableForm found => s!"invalid variable name {found.label}"
  | variableName name => s!"invalid variable name '{name}'"
  | bindingName name => s!"'{name}' is not a valid variable name"
  | dottedFieldName name => s!"field name '{name}' may not contain '.'"
  | mixedExpression => "an expression object cannot mix operators and field names"
  | severalOperators => "an expression object takes exactly one operator"
  | mixedCondition path => s!"condition on '{path}' mixes operators and field names"
  | optionsWithoutRegex => "requires a sibling $regex"
  | scalarElements => "scalar elements take an operator object"
  | negativeDistance => "distances must be non-negative numbers"
  | immutableId => "the '_id' field is immutable"
  | renameFromArray => "source paths may not pass through arrays"
  | renameIntoArray => "destination paths may not pass through arrays"
  | renameType destination target source =>
    s!"destination '{destination}' is {target.display}, but the source is {source.display}"
  | sortDirections => "directions must be 1 or -1"
  | stageName name => s!"stage name '{name}' must start with '$'"
  | stageKeys count => s!"a stage document has exactly one key, found {count}"
  | positional segment path =>
    s!"positional segment '{segment.render}' is not allowed in '{path}'"
  | fieldName name => s!"'{name}' is not a valid field name"
  | metaSort path => s!"sort key '{path}' has an invalid $meta argument"
  | sortDirection path found =>
    s!"sort direction for '{path}' must be 1 or -1, found {found.label}"
  | unwindPath path => s!"path '{path}' must be a field path starting with '$'"
  | noReplacement => "a replacement document is required"
  | replacementType found => s!"replacement evaluates to {found.display}, not a document"
  | documentForm found => s!"every entry must be a document, found {found.label}"
  | documentType found => s!"entry evaluates to {found.display}, not a document"
  | collision first second => s!"path collision between '{first}' and '{second}'"
  | mixedProjection path => s!"cannot exclude '{path}' in an inclusion projection"
  | pathNotString => "every path must be a string"
  | mergeKeyNotString => "'on' paths must be strings"
  | accumulatorForm field found =>
    s!"field '{field}' must be a single accumulator object, found {found.label}"
  | windowOnly => "only valid inside $setWindowFields"
  | boundaryForm found => s!"boundary {found.label} is not a number, string or date"
  | boundaryTypes => "all boundaries must have the same type"
  | boundaryOrder => "boundaries must be sorted in ascending order"
  | unknownGranularity name => s!"unknown granularity '{name}'"
  | unknownUnit name => s!"unknown time unit '{name}'"
  | unknownFill name => s!"unknown fill method '{name}'"
  | linearWithoutSort => "the linear method requires 'sortBy'"
  | fillForm path => s!"output '{path}' must be \x7bvalue: <expr>\x7d or \x7bmethod: <name>\x7d"
  | nestedTerminal stage => s!"{stage} is not allowed in a sub-pipeline"
  | lookupSource => "either 'localField'/'foreignField' or 'pipeline' is required"
  | shouldBe what form => s!"{what} must be {form.text}"
  | notFirst => "must be the first stage of the pipeline"
  | branchForm branch => s!"branch '{branch}' must be an array of stages"
  | branchStage branch stage => s!"branch '{branch}' may not contain {stage}"
  | noBranch => "at least one branch is required"
  | duplicateBranch branch => s!"duplicate branch '{branch}'"

inductive OperatorPlace where
  | filterRoot
  | filterCondition
  | expression
  | update
  | accumulator
  | pipeline
  | updatePipeline
deriving DecidableEq, Repr

def OperatorPlace.text : OperatorPlace → String
  | filterRoot => "filter root"
  | filterCondition => "filter condition"
  | expression => "expression"
  | update => "update"
  | accumulator => "accumulator"
  | pipeline => "pipeline"
  | updatePipeline => "update pipeline"

inductive RefusalCause where
  | path (error : PathError)
  | incompatible (operator path : String) (node : Schema) (capability : Capability)
  | requiredField (operator path : String)
  | unknownOperator (operator : String) (place : OperatorPlace)
  | argument (operator : String) (flaw : ArgumentFlaw)
  | mismatch (path : String) (expected : Schema) (found : Json)
  /-- One update changes overlapping paths. -/
  | conflict (first second : String)
  /-- A collection is asked for, but there is no catalog. -/
  | noCatalog (collection : String)
  | schema (error : SchemaError)
deriving Repr

/-- A refusal: its cause, and the path in whose context it arose. -/
structure Refusal where
  cause : RefusalCause
  context : Option String
deriving Repr

namespace RefusalCause

def code : RefusalCause → String
  | path error => error.code
  | incompatible .. | requiredField .. => "SHAPE_INCOMPATIBLE_OPERATOR"
  | unknownOperator .. => "SHAPE_UNKNOWN_OPERATOR"
  | argument .. => "SHAPE_INVALID_ARGUMENT"
  | mismatch .. => "SHAPE_TYPE_MISMATCH"
  | conflict .. => "SHAPE_CONFLICTING_PATHS"
  | noCatalog _ => "SHAPE_UNKNOWN_COLLECTION"
  | schema (.unknownCollection name) => (SchemaError.unknownCollection name).code
  | schema _ => "SHAPE_INVALID_ARGUMENT"

def message : RefusalCause → String
  | path error => error.message
  | incompatible operator target node capability =>
    s!"operator '{operator}' requires a {capability.name} field, but '{target}' is {node.kindLabel}"
  | requiredField operator target =>
    s!"operator '{operator}' removes '{target}', which is a required field"
  | unknownOperator operator place => s!"unknown operator '{operator}' in {place.text}"
  | argument operator flaw => s!"invalid argument to '{operator}': {flaw.message}"
  | mismatch target expected found =>
    s!"value {found.label} does not match '{target}' of type {expected.display}"
  | conflict first second => s!"update paths '{first}' and '{second}' conflict"
  | noCatalog collection => s!"collection '{collection}' is not in the schema catalog"
  | schema error => error.message

def path? : RefusalCause → Option String
  | path error => some error.path
  | incompatible _ target _ _ => some target
  | requiredField _ target => some target
  | mismatch target _ _ => some target
  | conflict _ second => some second
  | _ => none

def operator? : RefusalCause → Option String
  | incompatible operator .. => some operator
  | requiredField operator _ => some operator
  | unknownOperator operator _ => some operator
  | argument operator _ => some operator
  | _ => none

end RefusalCause

namespace Refusal

def of (cause : RefusalCause) : Refusal := ⟨cause, none⟩

def argument (operator : String) (flaw : ArgumentFlaw) : Refusal := of (.argument operator flaw)

def ofPath (error : PathError) : Refusal := of (.path error)

def ofSchema (error : SchemaError) : Refusal := of (.schema error)

/-- The path that a refusal concerns: that of its cause, else that of its context. -/
def path? (refusal : Refusal) : Option String := refusal.cause.path?.or refusal.context

/-- Gives a refusal the context of a path, unless it has one. -/
def within (path : String) (refusal : Refusal) : Refusal :=
  { refusal with context := refusal.context.or (some path) }

def code (refusal : Refusal) : String := refusal.cause.code

def message (refusal : Refusal) : String := refusal.cause.message

def report (refusal : Refusal) : String := s!"[REJECT] {refusal.code}: {refusal.message}"

end Refusal

abbrev Checked (α : Type) := Except Refusal α

def Checked.within {α : Type} (path : String) (checked : Checked α) : Checked α :=
  checked.mapError (Refusal.within path)

def demand (condition : Bool) (operator : String) (flaw : ArgumentFlaw) : Checked Unit :=
  if condition then .ok () else .error (.argument operator flaw)

def resolveChecked (root : Schema) (path : String) (options : ResolveOptions) : Checked Resolved :=
  (resolveText root path options).mapError Refusal.ofPath

end DocTyping
