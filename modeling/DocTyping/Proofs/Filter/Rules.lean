import DocTyping.Filter.Check

namespace DocTyping

/-!
# Rules of filters

The rules by which values pass as filters, and as the parts that filters are made
of.  There is a rule for each form that a value may have in its part; nothing is
said about the order in which the entries of an object are looked at.
-/

/-- The part that a value has in a filter. -/
inductive FilterPart where
  | filter (root : Schema)
  | argument (root : Schema) (operator : String)
  | condition (root : Schema) (target : FilterTarget)
  /-- The operators that a field is put to, in one object. -/
  | operators (root : Schema) (target : FilterTarget)
  /-- The argument of one of these operators. -/
  | operand (root : Schema) (target : FilterTarget) (name : String)
  | item (root : Schema) (target : FilterTarget)
  | element (root : Schema) (target : FilterTarget)
  | negation (root : Schema) (target : FilterTarget)

def nestingForms : List FilterArgument :=
  [.elementValues, .elementFilter, .negation, .expression]

namespace Json

/-- Whether a condition is a literal: it is no object with operators among its keys, unless these
announce an extended literal. -/
def isLiteralCondition : Json → Bool
  | .object entries =>
    !isOperatorObject entries && ((extendedKind? entries).isSome || !hasOperatorKey entries)
  | _ => true

/-- Whether what is negated is a literal: it is neither a pattern nor an object of operators. -/
def isLiteralNegation : Json → Bool
  | .object entries => !(object entries).isRegex && !isOperatorObject entries
  | _ => true

/-- The filter on elements that a value of a list stands for. -/
def elementFilter? : Json → Option Json
  | .object [(key, argument)] => if key = "$elemMatch" then some argument else none
  | _ => none

inductive Passes (context : FilterContext) : FilterPart → Json → Prop
  | filter {root : Schema} {entries : List (String × Json)}
      (unwrapped : extendedKind? entries = none)
      (operators : ∀ entry ∈ entries, Text.startsWithDollar entry.1 = true →
        Passes context (.argument root entry.1) entry.2)
      (addressed : ∀ entry ∈ entries, Text.startsWithDollar entry.1 = false →
        ∃ target, context.target root entry.1 = .ok target)
      (fields : ∀ entry ∈ entries, Text.startsWithDollar entry.1 = false →
        ∀ target, context.target root entry.1 = .ok target →
          Passes context (.condition root target) entry.2) :
      Passes context (.filter root) (object entries)
  | junction {root : Schema} {operator : String} {filters : List Json}
      (joins : isJunction operator = true) (some : filters ≠ [])
      (each : ∀ filter ∈ filters, Passes context (.filter root) filter) :
      Passes context (.argument root operator) (array filters)
  | expression {root type : Schema} {argument : Json}
      (typed : argument.infer (context.scope root) = .ok type) :
      Passes context (.argument root "$expr") argument
  | plainArgument {root : Schema} {operator : String} {argument : Json}
      (known : operator ∈ FilterOperator.rootNames) (single : isJunction operator = false)
      (plain : operator ≠ "$expr") (fits : checkRootArgument operator argument = .ok ()) :
      Passes context (.argument root operator) argument
  | literal {root : Schema} {target : FilterTarget} {value : Json}
      (plain : value.isLiteralCondition = true) (fits : target.checkLiteral true value = .ok ()) :
      Passes context (.condition root target) value
  | condition {root : Schema} {target : FilterTarget} {value : Json}
      (inside : Passes context (.operators root target) value) :
      Passes context (.condition root target) value
  | operators {root : Schema} {target : FilterTarget} {entries : List (String × Json)}
      (consists : isOperatorObject entries = true) (siblings : target.checkSiblings entries = .ok ())
      (each : ∀ entry ∈ entries, Passes context (.operand root target entry.1) entry.2) :
      Passes context (.operators root target) (object entries)
  | plainOperand {root : Schema} {target : FilterTarget} {name : String}
      {operator : FilterOperator} {argument : Json}
      (known : target.operator name = .ok operator) (plain : operator.argument ∉ nestingForms)
      (fits : operator.argument.check name target argument = .ok ()) :
      Passes context (.operand root target name) argument
  | computed {root type : Schema} {target : FilterTarget} {name : String}
      {operator : FilterOperator} {argument : Json}
      (known : target.operator name = .ok operator) (form : operator.argument = .expression)
      (typed : argument.infer (context.scope root) = .ok type) :
      Passes context (.operand root target name) argument
  | items {root : Schema} {target : FilterTarget} {name : String} {operator : FilterOperator}
      {items : List Json}
      (known : target.operator name = .ok operator) (form : operator.argument = .elementValues)
      (each : ∀ item ∈ items, Passes context (.item root target) item) :
      Passes context (.operand root target name) (array items)
  | element {root : Schema} {target : FilterTarget} {name : String} {operator : FilterOperator}
      {argument : Json}
      (known : target.operator name = .ok operator) (form : operator.argument = .elementFilter)
      (inside : Passes context (.element root target) argument) :
      Passes context (.operand root target name) argument
  | negation {root : Schema} {target : FilterTarget} {name : String} {operator : FilterOperator}
      {argument : Json}
      (known : target.operator name = .ok operator) (form : operator.argument = .negation)
      (inside : Passes context (.negation root target) argument) :
      Passes context (.operand root target name) argument
  | heldItem {root : Schema} {target : FilterTarget} {item : Json}
      (plain : item.elementFilter? = none) (fits : target.checkElement item = .ok ()) :
      Passes context (.item root target) item
  | matchedItem {root : Schema} {target : FilterTarget} {item argument : Json}
      (stated : item.elementFilter? = some argument)
      (inside : Passes context (.element root target) argument) :
      Passes context (.item root target) item
  | documentElement {root : Schema} {target : FilterTarget} {argument : Json}
      (composite : (target.element.isObject || target.element.isUnknown) = true)
      (inside : Passes context (.filter target.element) argument) :
      Passes context (.element root target) argument
  | scalarElement {root : Schema} {target : FilterTarget} {argument : Json}
      (scalar : (target.element.isObject || target.element.isUnknown) = false)
      (inside : Passes context (.operators root target.ofElement) argument) :
      Passes context (.element root target) argument
  | negatedPattern {root : Schema} {target : FilterTarget} {argument : Json}
      (pattern : argument.isRegex = true) (fits : target.checkPatternNegation = .ok ()) :
      Passes context (.negation root target) argument
  | negatedOperators {root : Schema} {target : FilterTarget} {argument : Json}
      (inside : Passes context (.operators root target) argument) :
      Passes context (.negation root target) argument
  | negatedLiteral {root : Schema} {target : FilterTarget} {argument : Json}
      (plain : argument.isLiteralNegation = true)
      (fits : target.checkLiteral false argument = .ok ()) :
      Passes context (.negation root target) argument

end Json

end DocTyping
