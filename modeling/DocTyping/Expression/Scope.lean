import DocTyping.Configuration
import DocTyping.Refusal

namespace DocTyping

/-!
# Scopes and references

An expression is typed in a scope: the schema of the documents it reads, how
paths are resolved, and the variables bound around it.  A text that starts with
one dollar sign refers to a field, one that starts with two to a variable.
-/

def systemVariables : List String := ["ROOT", "CURRENT", "NOW", "REMOVE", "CLUSTER_TIME"]

/-- Whether a text may name a variable: a lower-case letter, then letters, digits and
underscores. -/
def isVariableName (name : String) : Bool :=
  match name.toList with
  | [] => false
  | first :: rest => first.isLower && rest.all fun char => char.isAlphanum || char == '_'

/-- Types of variables, the innermost binding first. -/
abbrev Bindings := List (String × Schema)

structure Scope where
  root : Schema
  options : ResolveOptions
  bindings : Bindings

namespace Configuration

def resolveOptions (config : Configuration) : ResolveOptions := { maxDepth := config.maxPathDepth }

end Configuration

namespace Scope

/-- A scope over documents of a schema.  A value found across array elements counts as an
array. -/
def ofRoot (root : Schema) (config : Configuration) (bindings : Bindings) : Scope :=
  { root, options := { config.resolveOptions with checkInArray := true }, bindings }

def bind (scope : Scope) (name : String) (type : Schema) : Scope :=
  { scope with bindings := (name, type) :: scope.bindings }

/-- Binds variables one after the other, the last one innermost. -/
def bindAll (scope : Scope) (added : Bindings) : Scope :=
  { scope with bindings := added.reverse ++ scope.bindings }

/-- The names of the bound variables, the outermost first. -/
def variableNames (scope : Scope) : List String := (scope.bindings.map Prod.fst).reverse

/-- The type at a path of a type; without a path, the type itself. -/
def select (scope : Scope) (type : Schema) : Option String → Checked Schema
  | none => .ok type
  | some path => do
    let resolved ← resolveChecked type path scope.options
    return resolved.valueType

def splitFirstDot (text : List Char) : String × Option String :=
  let name := text.takeWhile (· != '.')
  match text.dropWhile (· != '.') with
  | [] => (String.ofList name, none)
  | _ :: rest => (String.ofList name, some (String.ofList rest))

/-- The type of a reference to a variable, given without its dollar signs. -/
def variableType (scope : Scope) (reference : List Char) : Checked Schema :=
  let (name, rest) := splitFirstDot reference
  match scope.bindings.lookup name with
  | some type => scope.select type rest
  | none =>
    match name with
    | "ROOT" | "CURRENT" => scope.select scope.root rest
    | "NOW" => .ok (.scalar .date)
    | "CLUSTER_TIME" => .ok (.scalar .timestamp)
    | "REMOVE" => .ok .unknown
    | _ => .error (.argument ("$$" ++ name) .undefinedVariable)

def textType (scope : Scope) (text : String) : Checked Schema :=
  match text.toList with
  | '$' :: '$' :: reference => scope.variableType reference
  | '$' :: path => scope.select scope.root (some (String.ofList path))
  | _ => .ok .string

end Scope

end DocTyping
