namespace DocTyping

/-!
# Schemas

A schema is a tree of scalars, arrays and objects.  An object declares fields in
order, each with two presence flags, and may admit further keys of one type.
-/

inductive ScalarKind where
  | string
  | int
  | long
  | double
  | decimal
  /-- Any numeric value. -/
  | number
  | bool
  | date
  | timestamp
  | binData
  | objectId
  | null
  | regex
  | unknown
deriving DecidableEq, Repr, Inhabited

structure Field (α : Type) where
  name : String
  node : α
  optional : Bool
  nullable : Bool
deriving Repr

/-- The entries of an object and the type of the keys it does not declare, if it admits any. -/
structure Shape (α : Type) where
  fields : List (Field α)
  additional : Option α
deriving Repr

inductive Schema where
  | scalar (kind : ScalarKind)
  | array (element : Schema)
  | object (shape : Shape Schema)
deriving Repr

namespace ScalarKind

def all : List ScalarKind :=
  [string, int, long, double, decimal, number, bool, date, timestamp, binData, objectId, null,
    regex, unknown]

def name : ScalarKind → String
  | string => "string"
  | int => "int"
  | long => "long"
  | double => "double"
  | decimal => "decimal"
  | number => "number"
  | bool => "bool"
  | date => "date"
  | timestamp => "timestamp"
  | binData => "binData"
  | objectId => "objectId"
  | null => "null"
  | regex => "regex"
  | unknown => "unknown"

def isNumeric : ScalarKind → Bool
  | int | long | double | decimal | number => true
  | _ => false

/-- The kinds that can hold integers; `number` is one of them. -/
def isInteger : ScalarKind → Bool
  | int | long | number => true
  | _ => false

end ScalarKind

namespace Shape

variable {α : Type}

def empty : Shape α := ⟨[], none⟩

instance : Inhabited (Shape α) := ⟨empty⟩

def openTo (value : α) : Shape α := ⟨[], some value⟩

def find? (shape : Shape α) (name : String) : Option (Field α) :=
  shape.fields.find? fun field => field.name == name

def declared? (shape : Shape α) (name : String) : Option α := (shape.find? name).map Field.node

/-- The type of a key: the declared one, else that of undeclared keys. -/
def child? (shape : Shape α) (name : String) : Option α :=
  match shape.declared? name with
  | some node => some node
  | none => shape.additional

def declares (shape : Shape α) (name : String) : Bool := (shape.find? name).isSome

def names (shape : Shape α) : List String := shape.fields.map Field.name

def isOptional (shape : Shape α) (name : String) : Bool :=
  ((shape.find? name).map Field.optional).getD false

def isNullable (shape : Shape α) (name : String) : Bool :=
  ((shape.find? name).map Field.nullable).getD false

def isOpen (shape : Shape α) : Bool := shape.additional.isSome

/-- Replaces the first field of the same name, or adds the field at the end. -/
def putField : List (Field α) → Field α → List (Field α)
  | [], added => [added]
  | field :: rest, added =>
    if field.name = added.name then added :: rest else field :: putField rest added

def put (shape : Shape α) (field : Field α) : Shape α :=
  { shape with fields := putField shape.fields field }

/-- Writes a field that does not admit null. -/
def insert (shape : Shape α) (name : String) (node : α) (optional : Bool) : Shape α :=
  shape.put ⟨name, node, optional, false⟩

def remove (shape : Shape α) (name : String) : Shape α :=
  { shape with fields := shape.fields.eraseP fun field => field.name == name }

def modify (shape : Shape α) (name : String) (change : Field α → Field α) : Shape α :=
  match shape.find? name with
  | some field => shape.put { change field with name := field.name }
  | none => shape

def setOptional (shape : Shape α) (name : String) (optional : Bool) : Shape α :=
  shape.modify name fun field => { field with optional }

def setNullable (shape : Shape α) (name : String) (nullable : Bool) : Shape α :=
  shape.modify name fun field => { field with nullable }

def withAdditional (shape : Shape α) (node : α) : Shape α :=
  { shape with additional := some node }

end Shape

namespace Schema

def unknown : Schema := scalar .unknown

instance : Inhabited Schema := ⟨unknown⟩

def string : Schema := scalar .string

def number : Schema := scalar .number

def bool : Schema := scalar .bool

def shape? : Schema → Option (Shape Schema)
  | object shape => some shape
  | _ => none

def element? : Schema → Option Schema
  | array element => some element
  | _ => none

def scalarKind? : Schema → Option ScalarKind
  | scalar kind => some kind
  | _ => none

def isUnknown (schema : Schema) : Bool := schema.scalarKind? == some .unknown

def isObject (schema : Schema) : Bool := schema.shape?.isSome

def fieldNames (schema : Schema) : List String := (schema.shape?.map Shape.names).getD []

def kindLabel : Schema → String
  | scalar kind => kind.name
  | object _ => "object"
  | array element => "array<" ++ kindLabel element ++ ">"

mutual

/-- Equality of schemas.  The order of fields does not matter; their flags do. -/
def equivalent : Schema → Schema → Bool
  | .scalar left, .scalar right => left == right
  | .array left, .array right => equivalent left right
  | .object left, .object right => equivalentShapes left right
  | _, _ => false
termination_by structural left => left

def equivalentShapes : Shape Schema → Shape Schema → Bool
  | ⟨fields, additional⟩, right =>
    fields.length == right.fields.length && equivalentFields fields right
      && equivalentAdditional additional right.additional
termination_by structural left => left

def equivalentFields : List (Field Schema) → Shape Schema → Bool
  | [], _ => true
  | field :: rest, right => equivalentField field right && equivalentFields rest right
termination_by structural fields => fields

def equivalentField : Field Schema → Shape Schema → Bool
  | ⟨name, node, optional, nullable⟩, right =>
    match right.find? name with
    | some other =>
      optional == other.optional && nullable == other.nullable && equivalent node other.node
    | none => false
termination_by structural field => field

def equivalentAdditional : Option Schema → Option Schema → Bool
  | none, none => true
  | some left, some right => equivalent left right
  | _, _ => false
termination_by structural left => left

end

instance : BEq Schema := ⟨equivalent⟩

mutual

/-- A schema in short notation: question marks for optional fields, `| null` for nullable ones,
brackets for arrays. -/
def display : Schema → String
  | .scalar kind => kind.name
  | .array element => display element ++ "[]"
  | .object shape => displayShape shape
termination_by structural schema => schema

def displayShape : Shape Schema → String
  | ⟨fields, additional⟩ =>
    match displayFields fields ++ displayAdditional additional with
    | [] => "\x7b\x7d"
    | entries => "\x7b " ++ ", ".intercalate entries ++ " \x7d"
termination_by structural shape => shape

def displayFields : List (Field Schema) → List String
  | [] => []
  | field :: rest => displayField field :: displayFields rest
termination_by structural fields => fields

def displayField : Field Schema → String
  | ⟨name, node, optional, nullable⟩ =>
    name ++ (if optional then "?" else "") ++ ": " ++ display node
      ++ (if nullable then " | null" else "")
termination_by structural field => field

def displayAdditional : Option Schema → List String
  | none => []
  | some node => ["[key: string]: " ++ display node]
termination_by structural additional => additional

end

end Schema

end DocTyping
