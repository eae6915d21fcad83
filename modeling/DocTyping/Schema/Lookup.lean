import DocTyping.Schema.Basic

namespace DocTyping

/-!
# Single steps into a schema
-/

inductive LookupError where
  | noField (name : String)
  /-- The schema is no array; carries the label of its kind. -/
  | notArray (kind : String)
deriving DecidableEq, Repr

def LookupError.message : LookupError → String
  | noField name => s!"field '{name}' not found"
  | notArray kind => s!"expected an array, found {kind}"

namespace Schema

def field (schema : Schema) (name : String) : Except LookupError Schema :=
  match schema.shape?.bind (Shape.child? · name) with
  | some node => .ok node
  | none => .error (.noField name)

def element : Schema → Except LookupError Schema
  | array element => .ok element
  | other => .error (.notArray other.kindLabel)

def isOptional (schema : Schema) (name : String) : Bool :=
  (schema.shape?.map (Shape.isOptional · name)).getD false

def isNullable (schema : Schema) (name : String) : Bool :=
  (schema.shape?.map (Shape.isNullable · name)).getD false

end Schema

end DocTyping
