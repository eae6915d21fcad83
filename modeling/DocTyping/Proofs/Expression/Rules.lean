import DocTyping.Expression.Inference

namespace DocTyping

/-!
# Typing rules

The rules by which expressions have types, one for each kind of expression.  An
operator divides its argument into parts that have types of their own; only the
operators that bind variables type a part in another scope.
-/

/-- The parts of an argument that are typed: those that may bear on the type of the result, and
conditions. -/
structure ArgumentParts where
  positional : List Json := []
  named : List (String × Json) := []
  conditions : List Json := []

namespace ArgumentParts

def all (parts : ArgumentParts) : List Json :=
  parts.positional ++ parts.named.map Prod.snd ++ parts.conditions

def types (parts : ArgumentParts) (typeOf : Json → Schema) : ArgumentTypes where
  positional := parts.positional.map typeOf
  named := parts.named.map fun entry => (entry.1, typeOf entry.2)

theorem forall_mem_all {parts : ArgumentParts} {holds : Json → Prop} :
    (∀ part ∈ parts.all, holds part) ↔
      (∀ part ∈ parts.positional, holds part) ∧ (∀ entry ∈ parts.named, holds entry.2) ∧
        ∀ part ∈ parts.conditions, holds part := by
  simp only [all, List.forall_mem_append, List.forall_mem_map, and_assoc]

end ArgumentParts

namespace Json

/-- The value under a key; null when the key is absent. -/
def under (key : String) (entries : List (String × Json)) : Json :=
  (entries.lookup key).getD .null

def entriesOf : Json → List (String × Json)
  | object entries => entries
  | _ => []

/-- The keys that announce extended literals. -/
def wrapperKeys : List String :=
  ["$date", "$oid", "$numberInt", "$numberLong", "$numberDouble", "$numberDecimal", "$timestamp",
    "$binary", "$regularExpression"]

/-- The keys whose values are data: nothing below them is evaluated. -/
def quotingKeys : List String := "$literal" :: wrapperKeys

theorem wrapperKind?_of_not_mem {key : String} {payload : Json} (other : key ∉ wrapperKeys) :
    wrapperKind? key payload = none := by
  unfold wrapperKind?
  split
  all_goals simp_all [wrapperKeys]

end Json

/-- A branch of a choice between results. -/
def IsBranch (operator : String) (branch : Json) : Prop :=
  ∃ entries, branch = .object entries ∧
    checkNamed operator ["case", "then"] [] entries = .ok ()

def bindingOperators : List String := ["$map", "$filter", "$reduce", "$let"]

namespace ExprOperator

inductive Divides (operator : ExprOperator) : Json → ArgumentParts → Prop
  | whole {argument : Json} (single : operator.args.isWhole argument = true) :
      Divides operator argument { positional := [argument] }
  | items {items : List Json} (fits : operator.args.checkList operator.name items = .ok ()) :
      Divides operator (.array items) { positional := items }
  | nothing {entries : List (String × Json)} (form : operator.args = .emptyObject)
      (fits : operator.args.checkObject operator.name entries = .ok ()) :
      Divides operator (.object entries) {}
  | branches {entries : List (String × Json)} {branches : List Json}
      (form : operator.args = .switch)
      (fits : operator.args.checkObject operator.name entries = .ok ())
      (stated : entries.lookup "branches" = some (.array branches)) (some : branches ≠ [])
      (each : ∀ branch ∈ branches, IsBranch operator.name branch) :
      Divides operator (.object entries)
        { positional := branches.map fun branch => .under "then" branch.entriesOf
          named := (entries.lookup "default").toList.map fun value => ("default", value)
          conditions := branches.map fun branch => .under "case" branch.entriesOf }
  | named {entries : List (String × Json)}
      (divided : operator.args.isWhole (.object entries) = false)
      (filled : operator.args ≠ .emptyObject) (plain : operator.args ≠ .switch)
      (fits : operator.args.checkObject operator.name entries = .ok ()) :
      Divides operator (.object entries) { named := entries }

variable {name : String} {operator : ExprOperator} {argument : Json} {parts : ArgumentParts}
  {items : List Json} {entries : List (String × Json)}

theorem named?_eq_some (known : named? name = some operator) :
    operator ∈ all ∧ operator.name = name :=
  ⟨List.mem_of_find?_eq_some known, by simpa using List.find?_some known⟩

theorem startsWithDollar_of_named? (known : named? name = some operator) :
    Text.startsWithDollar name = true := by
  have table : ∀ operator ∈ all, Text.startsWithDollar operator.name = true := by decide +kernel
  obtain ⟨listed, rfl⟩ := named?_eq_some known
  exact table operator listed

theorem returns_of_ordinary (known : named? name = some operator)
    (ordinary : name ∉ "$literal" :: bindingOperators) :
    operator.returns ≠ .literal ∧ operator.returns ≠ .arrayOfBody ∧ operator.returns ≠ .body := by
  have table : ∀ operator ∈ all, operator.returns ∈ [ExprReturn.literal, .arrayOfBody, .body] →
      operator.name ∈ "$literal" :: bindingOperators := by decide +kernel
  obtain ⟨listed, rfl⟩ := named?_eq_some known
  have other := mt (table operator listed) ordinary
  simpa using other

theorem Divides.eq_whole (divides : operator.Divides argument parts)
    (single : operator.args.isWhole argument = true) : parts = { positional := [argument] } := by
  cases divides with
  | whole => rfl
  | items =>
      simp [ExprArgs.isWhole] at single
  | nothing form => simp [form, ExprArgs.isWhole] at single
  | branches form => simp [form, ExprArgs.isWhole] at single
  | named divided => simp [single] at divided

theorem divides_array_iff :
    operator.Divides (.array items) parts ↔
      operator.args.checkList operator.name items = .ok () ∧ parts = { positional := items } := by
  constructor
  · intro divides
    cases divides with
    | whole single => simp [ExprArgs.isWhole] at single
    | items fits => exact ⟨fits, rfl⟩
  · rintro ⟨fits, rfl⟩
    exact .items fits

theorem divides_nothing_iff (form : operator.args = .emptyObject) :
    operator.Divides (.object entries) parts ↔
      operator.args.checkObject operator.name entries = .ok () ∧ parts = {} := by
  constructor
  · intro divides
    cases divides with
    | whole single => simp [form, ExprArgs.isWhole] at single
    | nothing _ fits => exact ⟨fits, rfl⟩
    | branches other => simp [form] at other
    | named _ filled => exact absurd form filled
  · rintro ⟨fits, rfl⟩
    exact .nothing form fits

theorem divides_branches_iff (form : operator.args = .switch) :
    operator.Divides (.object entries) parts ↔
      operator.args.checkObject operator.name entries = .ok () ∧
        ∃ branches, entries.lookup "branches" = some (.array branches) ∧ branches ≠ [] ∧
          (∀ branch ∈ branches, IsBranch operator.name branch) ∧
          parts =
            { positional := branches.map fun branch => .under "then" branch.entriesOf
              named := (entries.lookup "default").toList.map fun value => ("default", value)
              conditions := branches.map fun branch => .under "case" branch.entriesOf } := by
  constructor
  · intro divides
    cases divides with
    | whole single => simp [form, ExprArgs.isWhole] at single
    | nothing other => simp [form] at other
    | branches _ fits stated some each => exact ⟨fits, _, stated, some, each, rfl⟩
    | named _ _ plain => exact absurd form plain
  · rintro ⟨fits, _, stated, some, each, rfl⟩
    exact .branches form fits stated some each

theorem divides_named_iff (divided : operator.args.isWhole (.object entries) = false)
    (filled : operator.args ≠ .emptyObject) (plain : operator.args ≠ .switch) :
    operator.Divides (.object entries) parts ↔
      operator.args.checkObject operator.name entries = .ok () ∧ parts = { named := entries } := by
  constructor
  · intro divides
    cases divides with
    | whole single => simp [divided] at single
    | nothing form => exact absurd form filled
    | branches form => exact absurd form plain
    | named _ _ _ fits => exact ⟨fits, rfl⟩
  · rintro ⟨fits, rfl⟩
    exact .named divided filled plain fits

/-- The keys that announce extended literals are no operators. -/
theorem not_wrapper_of_named? (known : named? name = some operator) :
    name ∉ Json.wrapperKeys := by
  have table : ∀ operator ∈ all, operator.name ∉ Json.wrapperKeys := by decide +kernel
  obtain ⟨listed, rfl⟩ := named?_eq_some known
  exact table operator listed

theorem not_quoting_of_named? (known : named? name = some operator)
    (ordinary : name ∉ "$literal" :: bindingOperators) : name ∉ Json.quotingKeys := by
  rw [List.mem_cons, not_or] at ordinary
  rw [Json.quotingKeys, List.mem_cons, not_or]
  exact ⟨ordinary.1, not_wrapper_of_named? known⟩

theorem wrapperKind?_of_named? (known : named? name = some operator) :
    Json.wrapperKind? name argument = none :=
  Json.wrapperKind?_of_not_mem (not_wrapper_of_named? known)

end ExprOperator

namespace Json

inductive HasType : Scope → Json → Schema → Prop
  | null {scope : Scope} : HasType scope null (.scalar .null)
  | bool {scope : Scope} {value : Bool} : HasType scope (bool value) .bool
  | number {scope : Scope} {value : Number} : HasType scope (number value) .number
  | text {scope : Scope} {text : String} {type : Schema} (typed : scope.textType text = .ok type) :
      HasType scope (string text) type
  | array {scope : Scope} {items : List Json} {typeOf : Json → Schema}
      (each : ∀ item ∈ items, HasType scope item (typeOf item)) :
      HasType scope (array items) (.array (.unifyAll (items.map typeOf)))
  | extended {scope : Scope} {entries : List (String × Json)} {kind : ScalarKind}
      (wrapper : extendedKind? entries = some kind) : HasType scope (object entries) (.scalar kind)
  | document {scope : Scope} {entries : List (String × Json)} {typeOf : Json → Schema}
      (unwrapped : extendedKind? entries = none) (plain : hasOperatorKey entries = false)
      (undotted : ∀ entry ∈ entries, '.' ∉ entry.1.toList)
      (each : ∀ entry ∈ entries, HasType scope entry.2 (typeOf entry.2)) :
      HasType scope (object entries)
        (closedObject (entries.map fun entry => (entry.1, typeOf entry.2)))
  | literal {scope : Scope} {argument : Json} :
      HasType scope (object [("$literal", argument)]) argument.type
  | applied {scope : Scope} {name : String} {argument : Json} {operator : ExprOperator}
      {parts : ArgumentParts} {typeOf : Json → Schema}
      (known : ExprOperator.named? name = some operator)
      (ordinary : name ∉ "$literal" :: bindingOperators)
      (divides : operator.Divides argument parts)
      (each : ∀ part ∈ parts.all, HasType scope part (typeOf part)) :
      HasType scope (object [(name, argument)])
        (operator.resultType argument (parts.types typeOf))
  | map {scope : Scope} {arguments : List (String × Json)} {name : String} {input body : Schema}
      (fits : checkNamed "$map" ["input", "in"] ["as"] arguments = .ok ())
      (named : bindingName "$map" arguments = .ok name)
      (typed : HasType scope (under "input" arguments) input)
      (inside : HasType (scope.bind name (elementOf input)) (under "in" arguments) body) :
      HasType scope (object [("$map", object arguments)]) (.array body)
  | filter {scope : Scope} {arguments : List (String × Json)} {name : String}
      {input limit condition : Schema}
      (fits : checkNamed "$filter" ["input", "cond"] ["as", "limit"] arguments = .ok ())
      (named : bindingName "$filter" arguments = .ok name)
      (typed : HasType scope (under "input" arguments) input)
      (limited : HasType scope (under "limit" arguments) limit)
      (inside : HasType (scope.bind name (elementOf input)) (under "cond" arguments) condition) :
      HasType scope (object [("$filter", object arguments)]) (arrayOrUnknown (some input))
  | reduce {scope : Scope} {arguments : List (String × Json)} {input initial body : Schema}
      (fits : checkNamed "$reduce" ["input", "initialValue", "in"] [] arguments = .ok ())
      (typed : HasType scope (under "input" arguments) input)
      (started : HasType scope (under "initialValue" arguments) initial)
      (inside : HasType (scope.bindAll [("this", elementOf input), ("value", initial)])
        (under "in" arguments) body) :
      HasType scope (object [("$reduce", object arguments)]) body
  | lets {scope : Scope} {arguments vars : List (String × Json)} {typeOf : Json → Schema}
      {body : Schema}
      (fits : checkNamed "$let" ["vars", "in"] [] arguments = .ok ())
      (stated : arguments.lookup "vars" = some (object vars))
      (names : ∀ entry ∈ vars, isVariableName entry.1 = true)
      (each : ∀ entry ∈ vars, HasType scope entry.2 (typeOf entry.2))
      (inside : HasType (scope.bindAll (vars.map fun entry => (entry.1, typeOf entry.2)))
        (under "in" arguments) body) :
      HasType scope (object [("$let", object arguments)]) body

end Json

/-- Between related scopes, what refers to something keeps its type, whatever is bound in both. -/
structure Scope.Preserves (related : Scope → Scope → Prop) : Prop where
  texts : ∀ {scope other : Scope} {text : String} {type : Schema}, related scope other →
    scope.textType text = .ok type → other.textType text = .ok type
  binds : ∀ {scope other : Scope} (bindings : Bindings), related scope other →
    related (scope.bindAll bindings) (other.bindAll bindings)

theorem Json.HasType.transfer {related : Scope → Scope → Prop} {scope other : Scope} {value : Json}
    {type : Schema} (typed : HasType scope value type) (preserves : Scope.Preserves related)
    (relates : related scope other) : HasType other value type := by
  induction typed generalizing other with
  | null => exact .null
  | bool => exact .bool
  | number => exact .number
  | text typed => exact .text (preserves.texts relates typed)
  | array _ each => exact .array fun item member => each item member relates
  | extended wrapper => exact .extended wrapper
  | document unwrapped plain undotted _ each =>
      exact .document unwrapped plain undotted fun entry member => each entry member relates
  | literal => exact .literal
  | applied known ordinary divides _ each =>
      exact .applied known ordinary divides fun part member => each part member relates
  | @map _ _ name input _ fits named _ _ typed inside =>
      have bound := preserves.binds [(name, elementOf input)] relates
      exact .map fits named (typed relates) (inside bound)
  | @filter _ _ name input _ _ fits named _ _ _ typed limited inside =>
      have bound := preserves.binds [(name, elementOf input)] relates
      exact .filter fits named (typed relates) (limited relates) (inside bound)
  | reduce fits _ _ _ typed started inside =>
      exact .reduce fits (typed relates) (started relates) (inside (preserves.binds _ relates))
  | lets fits stated names _ _ each inside =>
      exact .lets fits stated names (fun entry member => each entry member relates)
        (inside (preserves.binds _ relates))

end DocTyping
