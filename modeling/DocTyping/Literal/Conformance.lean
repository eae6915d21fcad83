import DocTyping.Literal.Extended

namespace DocTyping

/-!
# Conformance

`Schema.admits` says whether a value may stand where a schema is expected.
-/

/-- Which required fields an object literal has to give. -/
inductive Presence where
  | full
  /-- `_id` alone. -/
  | identifier
deriving DecidableEq, Repr

/-- The presence that suits a schema: objects that declare `_id` are known by it.  Array levels
are looked through. -/
def Presence.suiting : Schema → Presence
  | .array element => suiting element
  | .object shape => if shape.declares "_id" then .identifier else .full
  | .scalar _ => .full

def int32Min : Int := -2147483648

def int32Max : Int := 2147483647

def ScalarKind.admits (kind : ScalarKind) (value : Json) : Bool :=
  let wrapped := value.extended?
  match kind with
  | .unknown => true
  | .string => value.isString
  | .int =>
    value.int64?.any (fun integer => decide (int32Min ≤ integer ∧ integer ≤ int32Max))
      || wrapped == some .int
  | .long =>
    value.int64?.isSome || value.uint64?.isSome || wrapped == some .int || wrapped == some .long
  | .double | .decimal | .number => value.isNumber || wrapped.any ScalarKind.isNumeric
  | .bool => value.bool?.isSome
  | .date => wrapped == some .date || value.string?.any Text.isTimestamp
  | .objectId => wrapped == some .objectId || value.string?.any Text.isObjectId
  | .null => value.isNull
  | .timestamp | .binData | .regex => wrapped == some kind

def Shape.requiredPresent (shape : Shape Schema) (entries : List (String × Json))
    (presence : Presence) : Bool :=
  shape.fields.all fun field =>
    field.optional || Keyed.has entries field.name
      || (presence == .identifier && field.name != "_id")

def Schema.admitsNull : Schema → Bool
  | .scalar .null | .scalar .unknown => true
  | _ => false

namespace Json

mutual

/-- Whether a value conforms to a schema.  `nullable` admits null for the value itself;
`presence` says which fields it has to give if it is an object, or its items if it is an array. -/
def conforms (schema : Schema) (nullable : Bool) (presence : Presence) : Json → Bool
  | .null => nullable || schema.admitsNull
  | .array items =>
    match schema with
    | .scalar kind => kind.admits (.array items)
    | .array element => itemsConform element presence items
    | .object _ => false
  | .object entries =>
    match schema with
    | .scalar kind => kind.admits (.object entries)
    | .array _ => false
    | .object shape =>
      (extendedKind? entries).isNone && entriesConform shape entries
        && shape.requiredPresent entries presence
  | value =>
    match schema with
    | .scalar kind => kind.admits value
    | _ => false
termination_by structural value => value

def itemsConform (element : Schema) (presence : Presence) : List Json → Bool
  | [] => true
  | item :: rest => conforms element false presence item && itemsConform element presence rest
termination_by structural items => items

def entriesConform (shape : Shape Schema) : List (String × Json) → Bool
  | [] => true
  | (key, value) :: rest =>
    (match shape.child? key with
      | some node => conforms node (shape.isNullable key) .full value
      | none => false)
      && entriesConform shape rest
termination_by structural entries => entries

end

end Json

def Schema.admits (schema : Schema) (value : Json) (nullable : Bool) (presence : Presence) : Bool :=
  value.conforms schema nullable presence

end DocTyping
