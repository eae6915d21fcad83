import DocTyping.Literal.Extended

namespace DocTyping

/-!
# Types of literals

`Schema.unify` is the least schema found for values of either of two schemas, and
`Json.type` the schema of a literal.
-/

namespace Schema

/-- The field of a merged object under a name that both declare, or that only `left` does. -/
def mergedField (name : String) (node : Schema) (optional : Bool) : Field Schema :=
  ⟨name, node, optional, false⟩

/-- The fields that only the right object declares, now optional. -/
def rightOnly (left right : Shape Schema) : List (Field Schema) :=
  (right.fields.filter fun field => !left.declares field.name).map fun field =>
    mergedField field.name field.node true

mutual

/-- Equal schemas stay as they are.  Numeric kinds widen to `number`; arrays unify their
elements; objects merge, and a field that one side lacks becomes optional; all else is
opaque. -/
def unify (left right : Schema) : Schema :=
  if left == right then left
  else
    match left, right with
    | .scalar first, .scalar second =>
      if first.isNumeric && second.isNumeric then .number else .unknown
    | .array first, .array second => .array (unify first second)
    | .object first, .object second => .object (unifyShapes first second)
    | _, _ => .unknown
termination_by structural left

/-- Merges two objects into a closed one. -/
def unifyShapes : Shape Schema → Shape Schema → Shape Schema
  | ⟨fields, additional⟩, right =>
    ⟨unifyFields fields right ++ rightOnly ⟨fields, additional⟩ right, none⟩
termination_by structural left => left

def unifyFields : List (Field Schema) → Shape Schema → List (Field Schema)
  | [], _ => []
  | field :: rest, right => unifyField field right :: unifyFields rest right
termination_by structural fields => fields

def unifyField : Field Schema → Shape Schema → Field Schema
  | ⟨name, node, optional, _⟩, right =>
    match right.find? name with
    | some other => mergedField name (unify node other.node) (optional || other.optional)
    | none => mergedField name node true
termination_by structural field => field

end

/-- The schema for values of any of several schemas; opaque when there is none. -/
def unifyAll : List Schema → Schema
  | [] => .unknown
  | first :: rest => rest.foldl unify first

end Schema

namespace Json

mutual

def type : Json → Schema
  | .null => .scalar .null
  | .bool _ => .bool
  | .number _ => .number
  | .string _ => .string
  | .array items => .array (Schema.unifyAll (itemTypes items))
  | .object entries =>
    match extendedKind? entries with
    | some kind => .scalar kind
    | none => .object ⟨entryFields entries, none⟩
termination_by structural value => value

def itemTypes : List Json → List Schema
  | [] => []
  | item :: rest => type item :: itemTypes rest
termination_by structural items => items

def entryFields : List (String × Json) → List (Field Schema)
  | [] => []
  | (key, value) :: rest => ⟨key, type value, false, false⟩ :: entryFields rest
termination_by structural entries => entries

end

end Json

end DocTyping
