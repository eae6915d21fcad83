import DocTyping.Schema.Basic

namespace DocTyping

/-!
# Reshaping

Writing, removing and unwinding a field derives a new schema.  A path of names
passes through arrays: what it does to an array it does to the elements.
-/

structure Slot where
  optional : Bool := false
  nullable : Bool := false
deriving DecidableEq, Repr

namespace Schema

/-- Changes what lies below all array levels. -/
def underArrays (change : Schema → Schema) : Schema → Schema
  | array element => array (underArrays change element)
  | other => change other

/-- The object at a place; a scalar gives way to an object without fields. -/
def shapeOrEmpty (schema : Schema) : Shape Schema := schema.shape?.getD .empty

/-- Writes a value at a path.  Objects missing on the way are made, and scalars on the way are
replaced by objects. -/
def setPath (value : Schema) (slot : Slot) : List String → Schema → Schema
  | [] => fun _ => value
  | [name] => underArrays fun node =>
    .object (node.shapeOrEmpty.put ⟨name, value, slot.optional, slot.nullable⟩)
  | name :: rest => underArrays fun node =>
    let shape := node.shapeOrEmpty
    let child := setPath value slot rest ((shape.child? name).getD (.object .empty))
    .object (shape.insert name child (shape.isOptional name))

/-- Removes the field at a path, if it is declared. -/
def removePath : List String → Schema → Schema
  | [] => id
  | [name] => underArrays fun node =>
    match node with
    | .object shape => .object (shape.remove name)
    | other => other
  | name :: rest => underArrays fun node =>
    match node with
    | .object shape =>
      match shape.find? name with
      | some field => .object (shape.put { field with node := removePath rest field.node })
      | none => .object shape
    | other => other

/-- Replaces the array at a path by its element; the field takes on the flags of the slot. -/
def unwindPath (slot : Slot) : List String → Schema → Schema
  | [] => fun schema => schema.element?.getD schema
  | name :: rest => underArrays fun node =>
    match node with
    | .object shape =>
      match shape.child? name with
      | some child =>
        let added := if rest.isEmpty then slot else {}
        .object (shape.put
          { name
            node := unwindPath slot rest child
            optional := shape.isOptional name || added.optional
            nullable := shape.isNullable name || added.nullable })
      | none => .object shape
    | other => other

end Schema

end DocTyping
