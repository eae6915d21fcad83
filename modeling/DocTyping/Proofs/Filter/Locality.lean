import DocTyping.Proofs.Filter.Passing

namespace DocTyping

/-!
# Conditions away from their field

A condition looks at its field alone: at the node, and at whether it may be absent.  The path
only names the field in refusals, and the document around it only gives expressions their scope.
So a condition in which no expression is typed passes on one field exactly if it passes on any
other field of the same type.
-/

/-- An expression that a condition on a node types in the document around it: an operator of the
condition, or of what it negates, or of what it asks of elements that are no documents.  Element
documents are the scope of all that is asked of them. -/
inductive Json.Computes : Schema → Json → Prop
  | expression {node : Schema} {entries : List (String × Json)} {argument : Json}
      (consists : isOperatorObject entries = true) (stated : ("$expr", argument) ∈ entries) :
      Computes node (object entries)
  | negation {node : Schema} {entries : List (String × Json)} {argument : Json}
      (consists : isOperatorObject entries = true) (stated : ("$not", argument) ∈ entries)
      (inside : Computes node argument) : Computes node (object entries)
  | element {element : Schema} {entries : List (String × Json)} {argument : Json}
      (consists : isOperatorObject entries = true) (stated : ("$elemMatch", argument) ∈ entries)
      (scalar : (element.isObject || element.isUnknown) = false)
      (inside : Computes element argument) : Computes (.array element) (object entries)
  | everyElement {element : Schema} {entries : List (String × Json)} {items : List Json}
      {argument : Json} (consists : isOperatorObject entries = true)
      (stated : ("$all", array items) ∈ entries)
      (member : object [("$elemMatch", argument)] ∈ items)
      (scalar : (element.isObject || element.isUnknown) = false)
      (inside : Computes element argument) : Computes (.array element) (object entries)

def FilterTarget.renamed (target : FilterTarget) (path : String) : FilterTarget :=
  { target with path }

namespace FilterPart

/-- The same part, of a condition on a field elsewhere. -/
def elsewhere (root : Schema) (path : String) : FilterPart → FilterPart
  | filter inner => filter inner
  | argument inner operator => argument inner operator
  | condition _ target => condition root (target.renamed path)
  | operators _ target => operators root (target.renamed path)
  | operand _ target name => operand root (target.renamed path) name
  | item _ target => item root (target.renamed path)
  | element _ target => element root (target.renamed path)
  | negation _ target => negation root (target.renamed path)

/-- A value has an expression, in its part, that is typed in the document around the field. -/
def Computes : FilterPart → Json → Prop
  | filter _, _ => False
  | argument _ _, _ => False
  | condition _ target, value => value.Computes target.node
  | operators _ target, value => value.Computes target.node
  | operand _ target name, value => (Json.object [(name, value)]).Computes target.node
  | item _ target, value => ∃ argument, value.elementFilter? = some argument ∧
      (target.element.isObject || target.element.isUnknown) = false ∧
        argument.Computes target.element
  | element _ target, value =>
      (target.element.isObject || target.element.isUnknown) = false ∧
        value.Computes target.element
  | negation _ target, value => value.Computes target.node

end FilterPart

variable {context : FilterContext} {root other : Schema} {target : FilterTarget}
  {path name : String} {operator : FilterOperator} {value argument : Json}
  {entries : List (String × Json)} {items : List Json}

namespace FilterTarget

@[simp] theorem renamed_node : (target.renamed path).node = target.node := rfl

@[simp] theorem renamed_element : (target.renamed path).element = target.element := rfl

theorem checkLiteral_renamed {pattern : Bool} :
    (target.renamed path).checkLiteral pattern value = .ok () ↔
      target.checkLiteral pattern value = .ok () := by
  rw [checkLiteral_eq_ok, checkLiteral_eq_ok]
  rfl

theorem checkLiterals_renamed :
    (target.renamed path).checkLiterals items = .ok () ↔ target.checkLiterals items = .ok () := by
  rw [checkLiterals_eq_ok, checkLiterals_eq_ok]
  rfl

theorem checkElement_renamed :
    (target.renamed path).checkElement value = .ok () ↔ target.checkElement value = .ok () := by
  rw [checkElement_eq_ok, checkElement_eq_ok, renamed_element]

theorem checkPatternNegation_renamed :
    (target.renamed path).checkPatternNegation = .ok () ↔
      target.checkPatternNegation = .ok () := by
  rw [checkPatternNegation_eq_ok, checkPatternNegation_eq_ok, renamed_node]

theorem checkSiblings_renamed :
    (target.renamed path).checkSiblings entries = .ok () ↔
      target.checkSiblings entries = .ok () := by
  rw [checkSiblings_eq_ok, checkSiblings_eq_ok]

theorem operator_renamed :
    (target.renamed path).operator name = .ok operator ↔ target.operator name = .ok operator := by
  rw [operator_eq_ok, operator_eq_ok, renamed_node]

theorem check_renamed (form : FilterArgument) :
    form.check name (target.renamed path) argument = .ok () ↔
      form.check name target argument = .ok () := by
  cases form with
  | fieldValue => exact checkLiteral_renamed
  | fieldValueOrPattern => exact checkLiteral_renamed
  | fieldValues =>
      cases argument with
      | array items => exact checkLiterals_renamed
      | _ => simp [FilterArgument.check]
  | _ => rfl

theorem node_of_scalar (scalar : (target.element.isObject || target.element.isUnknown) = false) :
    target.node = .array target.element := by
  unfold element at scalar ⊢
  cases node : target.node with
  | array element => rfl
  | _ =>
      simp [node, Schema.element?, Schema.isUnknown, Schema.unknown, Schema.scalarKind?] at scalar

end FilterTarget

/-- The operator whose argument has a form that holds a filter or an expression. -/
def FilterArgument.nestingName? : FilterArgument → Option String
  | elementValues => some "$all"
  | elementFilter => some "$elemMatch"
  | negation => some "$not"
  | expression => some "$expr"
  | _ => none

theorem FilterOperator.name_of_nesting {key : String} (known : named? name = some operator)
    (nests : operator.argument.nestingName? = some key) : name = key := by
  have table : ∀ operator ∈ all,
      operator.argument.nestingName?.all (fun key => operator.name == key) = true := by decide
  obtain ⟨listed, rfl⟩ := named?_eq_some known
  simpa [nests] using table operator listed

namespace Json

/-- An expression behind one of several operators is an expression of all of them. -/
theorem Computes.among {node : Schema} (computes : (object [(name, argument)]).Computes node)
    (consists : isOperatorObject entries = true) (stated : (name, argument) ∈ entries) :
    (object entries).Computes node := by
  cases computes with
  | expression _ only =>
      cases List.mem_singleton.mp only
      exact .expression consists stated
  | negation _ only inside =>
      cases List.mem_singleton.mp only
      exact .negation consists stated inside
  | element _ only scalar inside =>
      cases List.mem_singleton.mp only
      exact .element consists stated scalar inside
  | everyElement _ only member scalar inside =>
      cases List.mem_singleton.mp only
      exact .everyElement consists stated member scalar inside

theorem computes_not_iff {node : Schema} :
    (object [("$not", argument)]).Computes node ↔ argument.Computes node := by
  constructor
  · intro computes
    cases computes with
    | expression _ stated => simp at stated
    | negation _ stated inside =>
        obtain ⟨_, rfl⟩ := Prod.mk.inj (List.mem_singleton.mp stated)
        exact inside
    | element _ stated => simp at stated
    | everyElement _ stated => simp at stated
  · exact .negation (FilterOperator.isOperatorObject_single rfl) List.mem_cons_self

theorem not_computes_of_names {node : Schema}
    (plain : ∀ entry ∈ entries, entry.1 ∉ ["$expr", "$not", "$elemMatch", "$all"]) :
    ¬ (object entries).Computes node := by
  intro computes
  cases computes with
  | expression _ stated => exact plain _ stated (by simp)
  | negation _ stated => exact plain _ stated (by simp)
  | element _ stated => exact plain _ stated (by simp)
  | everyElement _ stated => exact plain _ stated (by simp)

theorem object_of_elementFilter? (stated : value.elementFilter? = some argument) :
    value = object [("$elemMatch", argument)] := by
  unfold elementFilter? at stated
  split at stated
  · split at stated
    · rename_i named
      cases stated
      rw [named]
    · contradiction
  · contradiction

/-- What passes without an expression that is typed in the document around it passes on any field
of the same type. -/
theorem Passes.elsewhere {part : FilterPart} (passes : Passes context part value)
    (plain : ¬ part.Computes value) (other : Schema) (path : String) :
    Passes context (part.elsewhere other path) value := by
  -- Induction on the rules: an expression below a rule is one of the whole value.  For the rules
  -- on elements that takes an array as node, which elements that are no documents give.
  induction passes with
  | filter unwrapped operators addressed fields _ _ =>
      exact .filter unwrapped operators addressed fields
  | junction joins some each _ => exact .junction joins some each
  | expression typed => exact .expression typed
  | plainArgument known single other fits => exact .plainArgument known single other fits
  | literal form fits => exact .literal form (FilterTarget.checkLiteral_renamed.mpr fits)
  | condition _ ih => exact .condition (ih plain)
  | operators consists siblings _ ih =>
      refine .operators consists (FilterTarget.checkSiblings_renamed.mpr siblings) ?_
      intro entry member
      exact ih entry member fun computes => plain (computes.among consists member)
  | plainOperand known form fits =>
      exact .plainOperand (FilterTarget.operator_renamed.mpr known) form
        ((FilterTarget.check_renamed _).mpr fits)
  | computed known form typed =>
      have listed := (FilterTarget.operator_eq_ok.mp known).1
      obtain rfl := FilterOperator.name_of_nesting listed (congrArg _ form)
      exact absurd (.expression (FilterOperator.isOperatorObject_single listed) List.mem_cons_self)
        plain
  | @items root target name operator items known form _ ih =>
      have listed := (FilterTarget.operator_eq_ok.mp known).1
      obtain rfl := FilterOperator.name_of_nesting listed (congrArg _ form)
      refine .items (FilterTarget.operator_renamed.mpr known) form ?_
      intro item member
      refine ih item member ?_
      rintro ⟨argument, stated, scalar, inside⟩
      rw [object_of_elementFilter? stated] at member
      apply plain
      change Computes target.node _
      rw [target.node_of_scalar scalar]
      exact .everyElement (FilterOperator.isOperatorObject_single listed) List.mem_cons_self member
        scalar inside
  | @element root target name operator argument known form _ ih =>
      have listed := (FilterTarget.operator_eq_ok.mp known).1
      obtain rfl := FilterOperator.name_of_nesting listed (congrArg _ form)
      refine .element (FilterTarget.operator_renamed.mpr known) form (ih ?_)
      rintro ⟨scalar, inside⟩
      apply plain
      change Computes target.node _
      rw [target.node_of_scalar scalar]
      exact .element (FilterOperator.isOperatorObject_single listed) List.mem_cons_self scalar
        inside
  | negation known form _ ih =>
      have listed := (FilterTarget.operator_eq_ok.mp known).1
      obtain rfl := FilterOperator.name_of_nesting listed (congrArg _ form)
      refine .negation (FilterTarget.operator_renamed.mpr known) form (ih fun inside => plain ?_)
      exact .negation (FilterOperator.isOperatorObject_single listed) List.mem_cons_self inside
  | heldItem form fits => exact .heldItem form (FilterTarget.checkElement_renamed.mpr fits)
  | matchedItem stated _ ih =>
      refine .matchedItem stated (ih ?_)
      rintro ⟨scalar, inside⟩
      exact plain ⟨_, stated, scalar, inside⟩
  | documentElement composite inside _ => exact .documentElement composite inside
  | scalarElement scalar _ ih =>
      exact .scalarElement scalar (ih fun computes => plain ⟨scalar, computes⟩)
  | negatedPattern pattern fits =>
      exact .negatedPattern pattern (FilterTarget.checkPatternNegation_renamed.mpr fits)
  | negatedOperators _ ih => exact .negatedOperators (ih plain)
  | negatedLiteral form fits =>
      exact .negatedLiteral form (FilterTarget.checkLiteral_renamed.mpr fits)

theorem accepted_elsewhere {part : FilterPart} (plain : ¬ part.Computes value)
    (accepted : Accepted context value part) (other : Schema) (path : String) :
    Accepted context value (part.elsewhere other path) :=
  accepted_of_passes ((passes_of_accepted accepted).elsewhere plain other path)

theorem checkCondition_elsewhere (plain : ¬ value.Computes target.node) :
    value.checkCondition context other (target.renamed path) = .ok () ↔
      value.checkCondition context root target = .ok () := by
  constructor
  · intro accepted
    exact @accepted_elsewhere _ _ (.condition other (target.renamed path)) plain accepted root
      target.path
  · intro accepted
    exact @accepted_elsewhere _ _ (.condition root target) plain accepted other path

end Json

end DocTyping
