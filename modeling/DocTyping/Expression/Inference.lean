import DocTyping.Expression.Arguments
import DocTyping.Expression.Scope

namespace DocTyping

/-!
# Types of expressions

`Json.infer` types an expression in a scope, or says why it is refused.  The
recursion follows the document: a list is typed item by item, an object field by
field, and an operator through the parts that its form names.  The operators that
bind variables type their bodies in a larger scope.
-/

/-- The variable that an operator binds to each element when it names none. -/
def defaultBinding : String := "this"

def bindingName (operator : String) (entries : List (String × Json)) : Checked String :=
  match entries.lookup "as" with
  | none => .ok defaultBinding
  | some (.string name) =>
    if isVariableName name then .ok name
    else .error (.argument operator (.variableForm (.string name)))
  | some other => .error (.argument operator (.variableForm other))

/-- Refuses an object of several entries, some of whose keys start with a dollar sign. -/
def refuseOperators {α : Type} (entries : List (String × Json)) : Checked α :=
  if entries.all fun entry => Text.startsWithDollar entry.1 then
    .error (.argument ((entries.head?.map Prod.fst).getD "expression") .severalOperators)
  else .error (.argument "expression" .mixedExpression)

namespace Json

mutual

def infer (scope : Scope) : Json → Checked Schema
  | .null => .ok (.scalar .null)
  | .bool _ => .ok .bool
  | .number _ => .ok .number
  | .string text => scope.textType text
  | .array items => do
    let types ← inferItems scope items
    return .array (Schema.unifyAll types)
  | .object entries =>
    match extendedKind? entries with
    | some kind => .ok (.scalar kind)
    | none =>
      if hasOperatorKey entries then inferOperator scope entries
      else do
        let fields ← inferFields scope entries
        return .object ⟨fields, none⟩
termination_by structural value => value

def inferItems (scope : Scope) : List Json → Checked (List Schema)
  | [] => .ok []
  | item :: rest => do
    let type ← infer scope item
    let types ← inferItems scope rest
    return type :: types
termination_by structural items => items

/-- A required field for each entry of a computed document. -/
def inferFields (scope : Scope) : List (String × Json) → Checked (List (Field Schema))
  | [] => .ok []
  | (name, value) :: rest =>
    if name.toList.contains '.' then .error (.argument "expression" (.dottedFieldName name))
    else do
      let type ← infer scope value
      let fields ← inferFields scope rest
      return ⟨name, type, false, false⟩ :: fields
termination_by structural entries => entries

def inferNamed (scope : Scope) : List (String × Json) → Checked (List (String × Schema))
  | [] => .ok []
  | (name, value) :: rest => do
    let type ← infer scope value
    let types ← inferNamed scope rest
    return (name, type) :: types
termination_by structural entries => entries

/-- The type of the argument under a key; null when it is absent. -/
def inferKey (scope : Scope) (key : String) : List (String × Json) → Checked Schema
  | [] => .ok (.scalar .null)
  | (name, value) :: rest => if name = key then infer scope value else inferKey scope key rest
termination_by structural entries => entries

/-- The type of an operator's application, given as an object with that one entry. -/
def inferOperator (scope : Scope) : List (String × Json) → Checked Schema
  | [(name, argument)] =>
    match ExprOperator.named? name with
    | none => .error (.of (.unknownOperator name .expression))
    | some operator =>
      match operator.returns, name with
      | .literal, _ => .ok argument.type
      | .arrayOfBody, _ => inferMap scope name argument
      | .body, "$reduce" => inferReduce scope name argument
      | .body, _ => inferLet scope name argument
      | .sameArray, "$filter" => inferFilter scope name argument
      | _, _ =>
        if operator.args.isWhole argument then do
          let type ← infer scope argument
          return operator.resultType argument { positional := [type] }
        else do
          let types ← inferArguments scope operator argument
          return operator.resultType argument types
  | entries => refuseOperators entries
termination_by structural entries => entries

/-- The types of the parts of an argument that is not itself the expression to be typed. -/
def inferArguments (scope : Scope) (operator : ExprOperator) : Json → Checked ArgumentTypes
  | .array items => do
    operator.args.checkList operator.name items
    let types ← inferItems scope items
    return { positional := types }
  | .object entries => do
    operator.args.checkObject operator.name entries
    match operator.args with
    | .emptyObject => return {}
    | .switch => do
      let branches ← inferBranchesOf scope operator.name entries
      if Keyed.has entries "default" then do
        let type ← inferKey scope "default" entries
        return ⟨branches, [("default", type)]⟩
      else return { positional := branches }
    | _ => do
      let types ← inferNamed scope entries
      return { named := types }
  | other => operator.args.refuseOther operator.name other
termination_by structural argument => argument

def inferBranchesOf (scope : Scope) (operator : String) :
    List (String × Json) → Checked (List Schema)
  | [] => .error (.argument operator (.keyForm "branches" .nonEmptyArray))
  | (name, value) :: rest =>
    if name = "branches" then inferBranchList scope operator value
    else inferBranchesOf scope operator rest
termination_by structural entries => entries

def inferBranchList (scope : Scope) (operator : String) : Json → Checked (List Schema)
  | .array (branch :: branches) => do
    let type ← inferBranch scope operator branch
    let types ← inferBranches scope operator branches
    return type :: types
  | _ => .error (.argument operator (.keyForm "branches" .nonEmptyArray))
termination_by structural value => value

def inferBranches (scope : Scope) (operator : String) : List Json → Checked (List Schema)
  | [] => .ok []
  | branch :: rest => do
    let type ← inferBranch scope operator branch
    let types ← inferBranches scope operator rest
    return type :: types
termination_by structural branches => branches

/-- The result type of a branch, whose condition is typed too. -/
def inferBranch (scope : Scope) (operator : String) : Json → Checked Schema
  | .object entries => do
    checkNamed operator ["case", "then"] [] entries
    let _ ← inferKey scope "case" entries
    inferKey scope "then" entries
  | other => refuseUnnamed operator other
termination_by structural branch => branch

def inferMap (scope : Scope) (operator : String) : Json → Checked Schema
  | .object entries => do
    checkNamed operator ["input", "in"] ["as"] entries
    let input ← inferKey scope "input" entries
    let name ← bindingName operator entries
    let body ← inferKey (scope.bind name (elementOf input)) "in" entries
    return .array body
  | other => refuseUnnamed operator other
termination_by structural argument => argument

def inferFilter (scope : Scope) (operator : String) : Json → Checked Schema
  | .object entries => do
    checkNamed operator ["input", "cond"] ["as", "limit"] entries
    let input ← inferKey scope "input" entries
    let _ ← inferKey scope "limit" entries
    let name ← bindingName operator entries
    let _ ← inferKey (scope.bind name (elementOf input)) "cond" entries
    return arrayOrUnknown (some input)
  | other => refuseUnnamed operator other
termination_by structural argument => argument

/-- The type of a reduction: its body is typed with the element and the running value bound. -/
def inferReduce (scope : Scope) (operator : String) : Json → Checked Schema
  | .object entries => do
    checkNamed operator ["input", "initialValue", "in"] [] entries
    let input ← inferKey scope "input" entries
    let initial ← inferKey scope "initialValue" entries
    inferKey (scope.bindAll [("this", elementOf input), ("value", initial)]) "in" entries
  | other => refuseUnnamed operator other
termination_by structural argument => argument

def inferLet (scope : Scope) (operator : String) : Json → Checked Schema
  | .object entries => do
    checkNamed operator ["vars", "in"] [] entries
    let bindings ← inferBindingsOf scope operator entries
    inferKey (scope.bindAll bindings) "in" entries
  | other => refuseUnnamed operator other
termination_by structural argument => argument

def inferBindingsOf (scope : Scope) (operator : String) : List (String × Json) → Checked Bindings
  | [] => .error (.argument operator (.keyForm "vars" .object))
  | (name, value) :: rest =>
    if name = "vars" then inferBindingObject scope operator value
    else inferBindingsOf scope operator rest
termination_by structural entries => entries

def inferBindingObject (scope : Scope) (operator : String) : Json → Checked Bindings
  | .object entries => inferBindings scope operator entries
  | _ => .error (.argument operator (.keyForm "vars" .object))
termination_by structural value => value

/-- The variable bound by each entry, typed in the scope around them all. -/
def inferBindings (scope : Scope) (operator : String) : List (String × Json) → Checked Bindings
  | [] => .ok []
  | (name, value) :: rest =>
    if isVariableName name then do
      let type ← infer scope value
      let bindings ← inferBindings scope operator rest
      return (name, type) :: bindings
    else .error (.argument operator (.variableName name))
termination_by structural entries => entries

end

end Json

end DocTyping
