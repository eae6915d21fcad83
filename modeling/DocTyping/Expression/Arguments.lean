import DocTyping.Literal.Typing
import DocTyping.Refusal
import DocTyping.Vocabulary.ExprOperator
import DocTyping.Vocabulary.StoredType

namespace DocTyping

/-!
# Arguments of expression operators

What the form of an operator asks of its argument before anything in it is
typed, and the type of a result once the parts have their types.
-/

def hasOperatorKey (entries : List (String × Json)) : Bool :=
  entries.any fun entry => Text.startsWithDollar entry.1

/-- Whether an object consists of operators: it has entries, each key starts with a dollar sign,
and it is no extended literal. -/
def isOperatorObject (entries : List (String × Json)) : Bool :=
  !entries.isEmpty && (Json.extendedKind? entries).isNone
    && entries.all fun entry => Text.startsWithDollar entry.1

def checkKnown (operator : String) (entries : List (String × Json)) (allowed : List String) :
    Checked Unit :=
  match entries.find? fun entry => !allowed.contains entry.1 with
  | some (key, _) => .error (.argument operator (.unexpected key))
  | none => .ok ()

def checkRequired (operator : String) (entries : List (String × Json)) (required : List String) :
    Checked Unit :=
  match required.find? fun key => !Keyed.has entries key with
  | some key => .error (.argument operator (.missing key))
  | none => .ok ()

def checkNamed (operator : String) (required optional : List String)
    (entries : List (String × Json)) : Checked Unit :=
  if (Json.extendedKind? entries).isSome then
    .error (.argument operator (.expectedNot .namedArguments (.object entries)))
  else do
    checkKnown operator entries (required ++ optional)
    checkRequired operator entries required

def refuseUnnamed {α : Type} (operator : String) (found : Json) : Checked α :=
  .error (.argument operator (.expectedNot .namedArguments found))

def checkArity (operator : String) (least : Nat) (most : Option Nat) (count : Nat) :
    Checked Unit :=
  if count < least ∨ most.any (· < count) then
    .error (.argument operator (.arity least most count))
  else .ok ()

/-- The names of the parts of a calendar date that may be left out. -/
def calendarParts : List String :=
  ["month", "day", "hour", "minute", "second", "millisecond", "timezone"]

/-- The names of the parts of a week date that may be left out. -/
def weekParts : List String :=
  ["isoWeek", "isoDayOfWeek", "hour", "minute", "second", "millisecond", "timezone"]

/-- Checks the keys of the parts of a date: those of a calendar date or those of a week date. -/
def checkDateParts (operator : String) (entries : List (String × Json)) : Checked Unit :=
  match Keyed.has entries "year", Keyed.has entries "isoWeekYear" with
  | true, false => checkNamed operator ["year"] calendarParts entries
  | false, true => checkNamed operator ["isoWeekYear"] weekParts entries
  | _, _ => .error (.argument operator (.exactlyOne "year" "isoWeekYear"))

namespace ExprArgs

/-- Whether an argument of this form is itself the one expression to be typed. -/
def isWhole : ExprArgs → Json → Bool
  | _, .array _ => false
  | single, _ => true
  | singleOrList .., _ => true
  | dateOrNamed, .object entries =>
    (Json.extendedKind? entries).isSome || hasOperatorKey entries
  | dateOrNamed, _ => true
  | stringOrNamed .., value => value.isString
  | _, _ => false

def checkList (args : ExprArgs) (operator : String) (items : List Json) : Checked Unit :=
  match args with
  | single | dateOrNamed =>
    if items.length = 1 then .ok () else .error (.argument operator (.singleArity items.length))
  | list least most => checkArity operator least most items.length
  | singleOrList least most => checkArity operator least most items.length
  | cond =>
    if items.length = 3 then .ok () else .error (.argument operator (.condArity items.length))
  | named .. | stringOrNamed .. | switch => refuseUnnamed operator (.array items)
  | dateFromParts => .error (.argument operator (.exactlyOne "year" "isoWeekYear"))
  | emptyObject => .error (.argument operator (.expectedNot .emptyObject (.array items)))
  | literal => .ok ()

def checkObject (args : ExprArgs) (operator : String) (entries : List (String × Json)) :
    Checked Unit :=
  match args with
  | list .. => .error (.argument operator (.expectedNot .argumentList (.object entries)))
  | named required optional => checkNamed operator required optional entries
  | stringOrNamed required optional => checkNamed operator required optional entries
  | dateOrNamed => checkNamed operator ["date"] ["timezone"] entries
  | cond => checkNamed operator ["if", "then", "else"] [] entries
  | switch => checkNamed operator ["branches"] ["default"] entries
  | dateFromParts => checkDateParts operator entries
  | emptyObject =>
    if entries.isEmpty then .ok ()
    else .error (.argument operator (.expectedNot .emptyObject (.object entries)))
  | single | singleOrList .. | literal => .ok ()

def refuseOther {α : Type} (args : ExprArgs) (operator : String) (found : Json) : Checked α :=
  match args with
  | list .. => .error (.argument operator (.expectedNot .argumentList found))
  | dateFromParts => .error (.argument operator (.exactlyOne "year" "isoWeekYear"))
  | emptyObject => .error (.argument operator (.expectedNot .emptyObject found))
  | _ => refuseUnnamed operator found

end ExprArgs

structure ArgumentTypes where
  positional : List Schema := []
  named : List (String × Schema) := []

namespace ArgumentTypes

def input? (types : ArgumentTypes) : Option Schema :=
  types.positional.head?.or (types.named.lookup "input")

end ArgumentTypes

def closedObject (fields : List (String × Schema)) : Schema :=
  .object ⟨fields.map fun (name, node) => ⟨name, node, false, false⟩, none⟩

def openObject : Schema := .object (.openTo .unknown)

def patternMatchType : Schema :=
  closedObject [("match", .string), ("idx", .number), ("captures", .array .string)]

/-- The element of an array; opaque for any other type. -/
def elementOf (type : Schema) : Schema := type.element?.getD .unknown

def unknownArray : Schema := .array .unknown

def arrayOrUnknown (type : Option Schema) : Schema :=
  match type with
  | some (.array element) => .array element
  | _ => unknownArray

/-- A type for any of the candidates.  Null does not count beside others. -/
def commonType (candidates : List Schema) : Schema :=
  match candidates.filter fun type => type.scalarKind? != some .null with
  | [] => Schema.unifyAll candidates
  | others => Schema.unifyAll others

/-- Lays an object over another: its fields replace those of the same name. -/
def overlay (below above : Shape Schema) : Shape Schema :=
  ⟨above.fields.foldl Shape.putField below.fields, above.additional.or below.additional⟩

/-- Lays objects over each other, the later ones above; any other type, null apart, leaves
nothing known. -/
def mergeObjectTypes : List Schema → Shape Schema → Schema
  | [], merged => .object merged
  | .object shape :: rest, merged => mergeObjectTypes rest (overlay merged shape)
  | .scalar .null :: rest, merged => mergeObjectTypes rest merged
  | _ :: _, _ => openObject

namespace ExprOperator

def candidates (operator : ExprOperator) (argument : Json) (types : ArgumentTypes) : List Schema :=
  match operator.args with
  | .cond =>
    match types.positional with
    | [_, consequence, alternative] => [consequence, alternative]
    | _ => ["then", "else"].filterMap fun key => types.named.lookup key
  | .switch => types.positional ++ (types.named.lookup "default").toList
  | .singleOrList .. =>
    if argument.array?.isSome then types.positional
    else types.positional.map fun type => type.element?.getD type
  | _ => types.positional

/-- The objects that are laid over each other.  A reference to an array stands for its
elements. -/
def mergeSources (argument : Json) (types : ArgumentTypes) : List Schema :=
  match argument, types.positional with
  | .string _, [type] => type.element?.toList
  | _, positional => positional

def conversionType (argument : Json) : Schema :=
  match argument with
  | .object entries =>
    match ((entries.lookup "to").bind Json.string?).bind StoredType.scalar? with
    | some kind => .scalar kind
    | none => .unknown
  | _ => .unknown

def resultType (operator : ExprOperator) (argument : Json) (types : ArgumentTypes) : Schema :=
  match operator.returns with
  | .scalar kind => .scalar kind
  | .arrayOf kind => .array (.scalar kind)
  | .unknownArray => unknownArray
  | .sameArray => arrayOrUnknown types.input?
  | .arrayElement => (types.input?.map elementOf).getD .unknown
  | .common => commonType (operator.candidates argument types)
  | .mergedObjects => mergeObjectTypes (mergeSources argument types) .empty
  | .dateParts =>
    closedObject <| ["year", "month", "day", "hour", "minute", "second", "millisecond"].map
      fun part => (part, .number)
  | .patternMatch => patternMatchType
  | .patternMatches => .array patternMatchType
  | .keyValuePairs => .array (closedObject [("k", .string), ("v", .unknown)])
  | .openObject => openObject
  | .converted => conversionType argument
  | .arrayOfBody | .body | .literal | .unknown => .unknown

end ExprOperator

end DocTyping
