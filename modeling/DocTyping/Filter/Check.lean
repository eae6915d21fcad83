import DocTyping.Expression.Inference
import DocTyping.Filter.Arguments

namespace DocTyping

/-!
# Filters

`Json.checkFilter` checks a filter against a schema.  Every key is a path that
resolves or an operator of the root; every condition is a fitting literal, or
operators that the field admits.  `$elemMatch` continues in the element of an
array, and expressions are typed in the schema in force.
-/

structure FilterContext where
  config : Configuration
  bindings : Bindings := []

namespace FilterContext

def scope (context : FilterContext) (root : Schema) : Scope :=
  .ofRoot root context.config context.bindings

def target (context : FilterContext) (root : Schema) (path : String) : Checked FilterTarget := do
  let resolved ← resolveChecked root path context.config.resolveOptions
  return ⟨path, resolved.node, resolved.arrival.optional || resolved.arrival.nullable⟩

end FilterContext

def refuseFilter {α : Type} (found : Json) : Checked α :=
  .error (.argument "filter" (.expectedNot .filterObject found))

def isJunction (operator : String) : Bool :=
  operator == "$and" || operator == "$or" || operator == "$nor"

namespace Json

mutual

def checkFilter (context : FilterContext) (root : Schema) : Json → Checked Unit
  | .object entries =>
    if (extendedKind? entries).isSome then refuseFilter (.object entries)
    else checkClauses context root entries
  | other => refuseFilter other
termination_by structural filter => filter

def checkClauses (context : FilterContext) (root : Schema) :
    List (String × Json) → Checked Unit
  | [] => .ok ()
  | (key, condition) :: rest => do
    if Text.startsWithDollar key then checkRoot context root key condition
    else do
      let target ← context.target root key
      checkCondition context root target condition
    checkClauses context root rest
termination_by structural entries => entries

def checkRoot (context : FilterContext) (root : Schema) (operator : String) (argument : Json) :
    Checked Unit :=
  if !FilterOperator.rootNames.contains operator then
    .error (.of (.unknownOperator operator .filterRoot))
  else if isJunction operator then
    match argument with
    | .array (filter :: filters) => do
      checkFilter context root filter
      checkFilters context root filters
    | _ => .error (.argument operator (.expected .filterList))
  else if operator = "$expr" then do
    let _ ← argument.infer (context.scope root)
  else checkRootArgument operator argument
termination_by structural argument

def checkFilters (context : FilterContext) (root : Schema) : List Json → Checked Unit
  | [] => .ok ()
  | filter :: rest => do
    checkFilter context root filter
    checkFilters context root rest
termination_by structural filters => filters

def checkCondition (context : FilterContext) (root : Schema) (target : FilterTarget) :
    Json → Checked Unit
  | .object entries =>
    if isOperatorObject entries then do
      target.checkSiblings entries
      checkOperators context root target entries
    else if (extendedKind? entries).isNone && hasOperatorKey entries then
      Checked.within target.path (.error (.argument "filter" (.mixedCondition target.path)))
    else target.checkLiteral true (.object entries)
  | literal => target.checkLiteral true literal
termination_by structural condition => condition

def checkOperators (context : FilterContext) (root : Schema) (target : FilterTarget) :
    List (String × Json) → Checked Unit
  | [] => .ok ()
  | (name, argument) :: rest => do
    Checked.within target.path do
      let operator ← target.operator name
      match operator.argument with
      | .elementValues => checkElements context root target argument
      | .elementFilter => checkElementFilter context root target argument
      | .negation => checkNegation context root target argument
      | .expression => do
        let _ ← argument.infer (context.scope root)
      | form => form.check name target argument
    checkOperators context root target rest
termination_by structural entries => entries

def checkElements (context : FilterContext) (root : Schema) (target : FilterTarget) :
    Json → Checked Unit
  | .array items => checkEachElement context root target items
  | _ => .error (.argument "$all" (.expected .valueList))
termination_by structural argument => argument

/-- Checks each value that an array field should hold: an element, or a filter on elements. -/
def checkEachElement (context : FilterContext) (root : Schema) (target : FilterTarget) :
    List Json → Checked Unit
  | [] => .ok ()
  | item :: rest => do
    match item with
    | .object [(key, argument)] =>
      if key = "$elemMatch" then checkElementFilter context root target argument
      else target.checkElement (.object [(key, argument)])
    | value => target.checkElement value
    checkEachElement context root target rest
termination_by structural items => items

/-- Checks a filter on the elements of an array field: a filter where elements are documents,
operators where they are scalars. -/
def checkElementFilter (context : FilterContext) (root : Schema) (target : FilterTarget) :
    Json → Checked Unit
  | .object entries =>
    if target.element.isObject || target.element.isUnknown then
      if (extendedKind? entries).isSome then refuseFilter (.object entries)
      else checkClauses context target.element entries
    else if isOperatorObject entries then do
      target.ofElement.checkSiblings entries
      checkOperators context root target.ofElement entries
    else .error (.argument "$elemMatch" .scalarElements)
  | _ => .error (.argument "$elemMatch" (.expected .filterObject))
termination_by structural argument => argument

/-- Checks what is negated: operators, a pattern, or a literal. -/
def checkNegation (context : FilterContext) (root : Schema) (target : FilterTarget) :
    Json → Checked Unit
  | .object entries =>
    if (Json.object entries).isRegex then target.checkPatternNegation
    else if isOperatorObject entries then do
      target.checkSiblings entries
      checkOperators context root target entries
    else target.checkLiteral false (.object entries)
  | literal => target.checkLiteral false literal
termination_by structural argument => argument

end

end Json

end DocTyping
