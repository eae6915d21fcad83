import DocTyping.Proofs.Expression.Typing

namespace DocTyping

/-!
# References of an expression

Every text that is evaluated inside an accepted expression and starts with a
dollar sign refers to something: a path of the root, or a variable that is bound
where the text stands.  The places of evaluated texts are given by the document
alone, whatever the forms of the operators; only the types that variables are
bound to are inferred.
-/

namespace Scope

/-- Whether a path exists in a type; without a path there is nothing to ask. -/
def Reaches (scope : Scope) (type : Schema) : Option String → Prop
  | none => True
  | some path => ∃ resolved, resolveText type path scope.options = .ok resolved

def variableText (name : String) : Option String → String
  | none => "$$" ++ name
  | some path => "$$" ++ name ++ "." ++ path

/-- A text that refers to something in a scope.  Of several variables with a name, the innermost
counts; a system variable counts only where no other has its name. -/
inductive Refers (scope : Scope) : String → Prop
  | field {path : String} (single : Text.startsWithDollar path = false)
      (resolves : scope.Reaches scope.root (some path)) : Refers scope ("$" ++ path)
  | bound {name : String} {type : Schema} {path : Option String} (dotless : '.' ∉ name.toList)
      (bound : scope.bindings.lookup name = some type) (resolves : scope.Reaches type path) :
      Refers scope (variableText name path)
  | system {name : String} {path : Option String} (known : name ∈ systemVariables)
      (unbound : scope.bindings.lookup name = none)
      (resolves : name ∈ ["ROOT", "CURRENT"] → scope.Reaches scope.root path) :
      Refers scope (variableText name path)

variable {scope : Scope} {type result : Schema} {text : String} {path : Option String}

theorem reaches_of_select (selected : scope.select type path = .ok result) :
    scope.Reaches type path := by
  cases path with
  | none => trivial
  | some path =>
      obtain ⟨resolved, found, _⟩ := bind_eq_ok.mp selected
      exact ⟨resolved, resolveChecked_eq_ok.mp found⟩

theorem splitFirstDot_dotless (reference : List Char) :
    '.' ∉ (splitFirstDot reference).1.toList := by
  have dotless : '.' ∉ reference.takeWhile (· != '.') := by
    intro member
    simpa using List.all_eq_true.mp List.all_takeWhile _ member
  unfold splitFirstDot
  split
  · simpa using dotless
  · simpa using dotless

theorem splitFirstDot_joined (reference : List Char) :
    variableText (splitFirstDot reference).1 (splitFirstDot reference).2 =
      String.ofList ('$' :: '$' :: reference) := by
  have joined := List.takeWhile_append_dropWhile (p := (· != '.')) (l := reference)
  apply String.toList_injective
  unfold splitFirstDot
  split
  · rename_i whole
    rw [whole, List.append_nil] at joined
    simp [variableText, joined]
  · rename_i dot rest split
    have dotted : dot = '.' := by
      have stop := List.head?_dropWhile_not (· != '.') reference
      simpa [split] using stop
    rw [split, dotted] at joined
    simp only [variableText, String.toList_append, String.toList_ofList, List.append_assoc]
    exact congrArg (['$', '$'] ++ ·) joined

theorem variableType_bound {reference : List Char}
    (bound : scope.bindings.lookup (splitFirstDot reference).1 = some type) :
    scope.variableType reference = scope.select type (splitFirstDot reference).2 := by
  simp only [variableType, bound]

theorem variableType_undefined {reference : List Char}
    (ordinary : (splitFirstDot reference).1 ∉ systemVariables)
    (unbound : scope.bindings.lookup (splitFirstDot reference).1 = none) :
    scope.variableType reference =
      .error (.argument ("$$" ++ (splitFirstDot reference).1) .undefinedVariable) := by
  unfold variableType
  generalize splitFirstDot reference = parts at ordinary unbound ⊢
  obtain ⟨name, path⟩ := parts
  dsimp only at ordinary unbound ⊢
  rw [unbound]
  dsimp only
  split
  · exact absurd (by decide) ordinary
  · exact absurd (by decide) ordinary
  · exact absurd (by decide) ordinary
  · exact absurd (by decide) ordinary
  · exact absurd (by decide) ordinary
  · rfl

theorem refers_of_variableType {reference : List Char}
    (accepted : scope.variableType reference = .ok type) :
    scope.Refers (String.ofList ('$' :: '$' :: reference)) := by
  rw [← splitFirstDot_joined]
  have dotless := splitFirstDot_dotless reference
  unfold variableType at accepted
  generalize splitFirstDot reference = parts at accepted dotless ⊢
  obtain ⟨name, path⟩ := parts
  simp only at accepted dotless ⊢
  split at accepted
  · rename_i found
    exact .bound dotless found (reaches_of_select accepted)
  · rename_i unbound
    split at accepted
    · exact .system (by decide) unbound fun _ => reaches_of_select accepted
    · exact .system (by decide) unbound fun _ => reaches_of_select accepted
    · exact .system (by decide) unbound (by simp)
    · exact .system (by decide) unbound (by simp)
    · exact .system (by decide) unbound (by simp)
    · contradiction

theorem refers_of_textType (accepted : scope.textType text = .ok type)
    (reference : Text.startsWithDollar text = true) : scope.Refers text := by
  unfold textType at accepted
  split at accepted
  · rename_i name written
    have same : text = String.ofList ('$' :: '$' :: name) := by rw [← written, String.ofList_toList]
    rw [same]
    exact refers_of_variableType accepted
  · rename_i path notVariable written
    have same : text = "$" ++ String.ofList path := by
      apply String.toList_injective
      simp [written]
    rw [same]
    refine .field ?_ (reaches_of_select accepted)
    cases path with
    | nil => rfl
    | cons first rest =>
        have different : first ≠ '$' := by
          rintro rfl
          exact notVariable rest rfl
        simpa [Text.startsWithDollar] using different
  · rename_i _ plain
    cases written : text.toList with
    | nil => simp [Text.startsWithDollar, written] at reference
    | cons first rest =>
        have dollar : first = '$' := by simpa [Text.startsWithDollar, written] using reference
        exact absurd (dollar ▸ written) (plain rest)

end Scope

/-- The arguments of a binding operator that are not evaluated in the scope around it: the name
of the variable, and the body. -/
def innerArguments (operator : String) : List String :=
  if operator = "$map" then ["as", "in"]
  else if operator = "$filter" then ["as", "cond"]
  else ["in"]

/-- The scope in which an argument of a binding operator is evaluated.  The name of the variable
is not evaluated. -/
inductive ArgumentScope (scope : Scope) (operator : String) (arguments : List (String × Json)) :
    String → Scope → Prop
  | outer {key : String} (around : key ∉ innerArguments operator) :
      ArgumentScope scope operator arguments key scope
  | element {key name : String} {input : Schema}
      (body : (operator, key) ∈ [("$map", "in"), ("$filter", "cond")])
      (named : bindingName operator arguments = .ok name)
      (typed : (Json.under "input" arguments).infer scope = .ok input) :
      ArgumentScope scope operator arguments key (scope.bind name (elementOf input))
  | reduction {input initial : Schema} (reduces : operator = "$reduce")
      (typed : (Json.under "input" arguments).infer scope = .ok input)
      (started : (Json.under "initialValue" arguments).infer scope = .ok initial) :
      ArgumentScope scope operator arguments "in"
        (scope.bindAll [("this", elementOf input), ("value", initial)])
  | declarations {vars : List (String × Json)} {bindings : Bindings} (binds : operator = "$let")
      (stated : arguments.lookup "vars" = some (.object vars))
      (typed : Json.inferBindings scope operator vars = .ok bindings) :
      ArgumentScope scope operator arguments "in" (scope.bindAll bindings)

namespace Json

/-- A part that is evaluated inside a value, with the scope of the part: neither under
`$literal`, nor inside an extended literal, nor the name of a variable. -/
inductive Evaluates : Scope → Json → Scope → Json → Prop
  | whole {scope : Scope} {value : Json} : Evaluates scope value scope value
  | item {scope inner : Scope} {items : List Json} {item part : Json} (member : item ∈ items)
      (inside : Evaluates scope item inner part) : Evaluates scope (array items) inner part
  | entry {scope inner : Scope} {entries : List (String × Json)} {key : String} {value part : Json}
      (unwrapped : extendedKind? entries = none) (stated : entries.lookup key = some value)
      (ordinary : key ∉ "$literal" :: bindingOperators)
      (inside : Evaluates scope value inner part) : Evaluates scope (object entries) inner part
  | argument {scope middle inner : Scope} {entries arguments : List (String × Json)}
      {operator key : String} {value part : Json} (binding : operator ∈ bindingOperators)
      (applied : entries.lookup operator = some (object arguments))
      (stated : arguments.lookup key = some value)
      (placed : ArgumentScope scope operator arguments key middle)
      (inside : Evaluates middle value inner part) : Evaluates scope (object entries) inner part

variable {scope middle inner : Scope} {operator : ExprOperator} {argument value part : Json}
  {parts : ArgumentParts} {entries arguments : List (String × Json)} {name key text : String}
  {type : Schema}

theorem lookup_single (found : List.lookup key [(name, argument)] = some value) :
    key = name ∧ value = argument := by
  by_cases same : name = key
  · subst same
    simpa [eq_comm] using found
  · rw [Keyed.lookup_cons_of_ne same] at found
    contradiction

theorem under_of_lookup (found : entries.lookup key = some value) : under key entries = value := by
  simp [under, found]

end Json

namespace ArgumentScope

variable {scope middle : Scope} {operator key : String} {arguments : List (String × Json)}

theorem root (placed : ArgumentScope scope operator arguments key middle) :
    middle.root = scope.root ∧ middle.options = scope.options := by
  cases placed with
  | outer => exact ⟨rfl, rfl⟩
  | element => exact ⟨rfl, rfl⟩
  | reduction => exact ⟨rfl, rfl⟩
  | declarations => exact ⟨rfl, rfl⟩

end ArgumentScope

def ExprArgs.argumentNames : ExprArgs → List String
  | named required optional | stringOrNamed required optional => required ++ optional
  | dateOrNamed => ["date", "timezone"]
  | cond => ["if", "then", "else"]
  | switch => ["branches", "default"]
  | dateFromParts => "year" :: calendarParts ++ "isoWeekYear" :: weekParts
  | single | list .. | singleOrList .. | emptyObject | literal => []

theorem names_of_checkDateParts {operator : String} {entries : List (String × Json)}
    (fits : checkDateParts operator entries = .ok ()) :
    ∀ entry ∈ entries, entry.1 ∈ ExprArgs.dateFromParts.argumentNames := by
  intro entry member
  unfold checkDateParts at fits
  split at fits
  · exact List.mem_append_left _ (by simpa using (checkNamed_eq_ok.mp fits).2.1 entry member)
  · exact List.mem_append_right _ (by simpa using (checkNamed_eq_ok.mp fits).2.1 entry member)
  · contradiction

theorem ExprArgs.names_of_checkObject {args : ExprArgs} {operator : String}
    {entries : List (String × Json)} (fits : args.checkObject operator entries = .ok ())
    (divided : args.isWhole (.object entries) = false) (evaluated : args ≠ .literal) :
    ∀ entry ∈ entries, entry.1 ∈ args.argumentNames := by
  cases args with
  | single => contradiction
  | list => contradiction
  | singleOrList => contradiction
  | literal => contradiction
  | emptyObject =>
      have empty : entries = [] := by
        simpa [checkObject] using fits
      simp [empty]
  | named => exact (checkNamed_eq_ok.mp fits).2.1
  | stringOrNamed => exact (checkNamed_eq_ok.mp fits).2.1
  | dateOrNamed => exact (checkNamed_eq_ok.mp fits).2.1
  | cond => exact (checkNamed_eq_ok.mp fits).2.1
  | switch => exact (checkNamed_eq_ok.mp fits).2.1
  | dateFromParts => exact names_of_checkDateParts fits

/-- No argument of an ordinary operator is named like a binding operator. -/
theorem ExprOperator.argumentNames_of_fits {name : String} {operator : ExprOperator}
    {entries : List (String × Json)} (known : named? name = some operator)
    (ordinary : name ∉ "$literal" :: bindingOperators)
    (divided : operator.args.isWhole (.object entries) = false)
    (fits : operator.args.checkObject operator.name entries = .ok ()) :
    ∀ entry ∈ entries, entry.1 ∈ operator.args.argumentNames ∧ entry.1 ∉ bindingOperators := by
  have literals : ∀ operator ∈ all, operator.args = .literal → operator.name = "$literal" := by
    decide +kernel
  have free : ∀ operator ∈ all, ∀ key ∈ operator.args.argumentNames, key ∉ bindingOperators := by
    decide +kernel
  obtain ⟨listed, rfl⟩ := named?_eq_some known
  have evaluated : operator.args ≠ .literal := by
    intro form
    rw [literals operator listed form] at ordinary
    exact ordinary List.mem_cons_self
  intro entry member
  have given := ExprArgs.names_of_checkObject fits divided evaluated entry member
  exact ⟨given, free operator listed _ given⟩

namespace Json
variable {scope middle inner : Scope} {operator : ExprOperator} {argument value part : Json}
  {parts : ArgumentParts} {entries arguments : List (String × Json)} {name key text : String}
  {type : Schema}

theorem Evaluates.root (evaluated : Evaluates scope value inner part) :
    inner.root = scope.root ∧ inner.options = scope.options := by
  induction evaluated with
  | whole => exact ⟨rfl, rfl⟩
  | item _ _ ih => exact ih
  | entry _ _ _ _ ih => exact ih
  | argument _ _ _ placed _ ih =>
      obtain ⟨root, options⟩ := placed.root
      exact ⟨ih.1.trans root, ih.2.trans options⟩

/-- Every evaluated text in a value that starts with a dollar sign refers to something. -/
def Grounded (scope : Scope) (value : Json) : Prop :=
  ∀ inner text, Evaluates scope value inner (string text) →
    Text.startsWithDollar text = true → inner.Refers text

theorem grounded_array {items : List Json} (each : ∀ item ∈ items, Grounded scope item) :
    Grounded scope (array items) := by
  intro inner text evaluated dollar
  cases evaluated with
  | item member inside => exact each _ member inner text inside dollar

theorem grounded_object
    (each : ∀ key value, entries.lookup key = some value →
      key ∉ bindingOperators ∧ Grounded scope value) : Grounded scope (object entries) := by
  intro inner text evaluated dollar
  cases evaluated with
  | entry _ stated _ inside => exact (each _ _ stated).2 inner text inside dollar
  | argument binding applied => exact absurd binding (each _ _ applied).1

theorem grounded_application (binding : name ∈ bindingOperators)
    (each : ∀ key value middle, arguments.lookup key = some value →
      ArgumentScope scope name arguments key middle → Grounded middle value) :
    Grounded scope (object [(name, object arguments)]) := by
  intro inner text evaluated dollar
  cases evaluated with
  | entry _ stated ordinary inside =>
      obtain ⟨rfl, rfl⟩ := lookup_single stated
      exact absurd (List.mem_cons_of_mem _ binding) ordinary
  | argument _ applied stated placed inside =>
      obtain ⟨rfl, same⟩ := lookup_single applied
      cases same
      exact each _ _ _ stated placed inner text inside dollar

theorem grounded_branch (shaped : IsBranch name value)
    (condition : Grounded scope (under "case" value.entriesOf))
    (result : Grounded scope (under "then" value.entriesOf)) : Grounded scope value := by
  obtain ⟨entries, rfl, fits⟩ := shaped
  obtain ⟨_, known, _⟩ := checkNamed_eq_ok.mp fits
  refine grounded_object fun key value stated => ?_
  rw [← under_of_lookup stated]
  have allowed : key = "case" ∨ key = "then" := by
    simpa using known _ (Keyed.mem_of_lookup stated)
  rcases allowed with rfl | rfl
  · exact ⟨by decide, condition⟩
  · exact ⟨by decide, result⟩

theorem grounded_of_divides (known : ExprOperator.named? name = some operator)
    (ordinary : name ∉ "$literal" :: bindingOperators) (divides : operator.Divides argument parts)
    (each : ∀ part ∈ parts.all, Grounded scope part) : Grounded scope argument := by
  obtain ⟨positional, named, conditions⟩ := ArgumentParts.forall_mem_all.mp each
  cases divides with
  | whole => exact positional argument (by simp)
  | items => exact grounded_array positional
  | nothing form fits =>
      have names := ExprOperator.argumentNames_of_fits known ordinary (by rw [form]; rfl) fits
      refine grounded_object fun key value stated => ?_
      obtain ⟨listed, _⟩ := names (key, value) (Keyed.mem_of_lookup stated)
      simp [form, ExprArgs.argumentNames] at listed
  | @branches entries branches form fits stated _ shaped =>
      have names := ExprOperator.argumentNames_of_fits known ordinary (by rw [form]; rfl) fits
      refine grounded_object fun key value found => ?_
      obtain ⟨listed, free⟩ := names (key, value) (Keyed.mem_of_lookup found)
      refine ⟨free, ?_⟩
      simp only [form, ExprArgs.argumentNames, List.mem_cons, List.not_mem_nil, or_false] at listed
      rcases listed with rfl | rfl
      · cases stated.symm.trans found
        refine grounded_array fun branch member => ?_
        exact grounded_branch (shaped branch member) (List.forall_mem_map.mp conditions branch member)
          (List.forall_mem_map.mp positional branch member)
      · exact List.forall_mem_map.mp named value (by simp [found])
  | named divided _ _ fits =>
      have names := ExprOperator.argumentNames_of_fits known ordinary divided fits
      refine grounded_object fun key value stated => ?_
      have member := Keyed.mem_of_lookup stated
      exact ⟨(names (key, value) member).2, named (key, value) member⟩

theorem extendedKind?_of_binding (binding : name ∈ bindingOperators)
    (applied : entries.lookup name = some value) : extendedKind? entries = none := by
  match entries with
  | [] => rfl
  | [(key, payload)] =>
      obtain ⟨rfl, _⟩ := lookup_single applied
      simp only [bindingOperators, List.mem_cons, List.not_mem_nil, or_false] at binding
      rcases binding with rfl | rfl | rfl | rfl <;> rfl
  | _ :: _ :: _ => rfl

theorem not_binding_of_plain (plain : hasOperatorKey entries = false)
    (stated : entries.lookup key = some value) : key ∉ bindingOperators := by
  intro binding
  have operators : ∀ name ∈ bindingOperators, Text.startsWithDollar name = true := by decide
  have field : Text.startsWithDollar key = false := by
    simp only [hasOperatorKey, List.any_eq_false] at plain
    simpa using plain _ (Keyed.mem_of_lookup stated)
  rw [operators key binding] at field
  contradiction

theorem grounded_map {input : Schema}
    (fits : checkNamed "$map" ["input", "in"] ["as"] arguments = .ok ())
    (named : bindingName "$map" arguments = .ok name)
    (typed : (under "input" arguments).infer scope = .ok input)
    (outside : Grounded scope (under "input" arguments))
    (inside : Grounded (scope.bind name (elementOf input)) (under "in" arguments)) :
    Grounded scope (object [("$map", object arguments)]) := by
  refine grounded_application (by decide) fun key value middle stated placed => ?_
  have given := (checkNamed_eq_ok.mp fits).2.1 _ (Keyed.mem_of_lookup stated)
  rw [← under_of_lookup stated]
  cases placed with
  | outer around =>
      have outer : ∀ key ∈ ["input", "in"] ++ ["as"],
          key ∉ innerArguments "$map" → key = "input" := by decide
      rw [outer key given around]
      exact outside
  | element body again same =>
      have atBody : key = "in" := by simpa using body
      cases named.symm.trans again
      cases typed.symm.trans same
      rw [atBody]
      exact inside
  | reduction reduces => contradiction
  | declarations binds => contradiction

theorem grounded_filter {input : Schema}
    (fits : checkNamed "$filter" ["input", "cond"] ["as", "limit"] arguments = .ok ())
    (named : bindingName "$filter" arguments = .ok name)
    (typed : (under "input" arguments).infer scope = .ok input)
    (outside : Grounded scope (under "input" arguments))
    (limited : Grounded scope (under "limit" arguments))
    (inside : Grounded (scope.bind name (elementOf input)) (under "cond" arguments)) :
    Grounded scope (object [("$filter", object arguments)]) := by
  refine grounded_application (by decide) fun key value middle stated placed => ?_
  have given := (checkNamed_eq_ok.mp fits).2.1 _ (Keyed.mem_of_lookup stated)
  rw [← under_of_lookup stated]
  cases placed with
  | outer around =>
      have outer : ∀ key ∈ ["input", "cond"] ++ ["as", "limit"],
          key ∉ innerArguments "$filter" → key = "input" ∨ key = "limit" := by decide
      rcases outer key given around with rfl | rfl
      · exact outside
      · exact limited
  | element body again same =>
      have atBody : key = "cond" := by simpa using body
      cases named.symm.trans again
      cases typed.symm.trans same
      rw [atBody]
      exact inside
  | reduction reduces => contradiction
  | declarations binds => contradiction

theorem grounded_reduce {input initial : Schema}
    (fits : checkNamed "$reduce" ["input", "initialValue", "in"] [] arguments = .ok ())
    (typed : (under "input" arguments).infer scope = .ok input)
    (started : (under "initialValue" arguments).infer scope = .ok initial)
    (outside : Grounded scope (under "input" arguments))
    (before : Grounded scope (under "initialValue" arguments))
    (inside : Grounded (scope.bindAll [("this", elementOf input), ("value", initial)])
      (under "in" arguments)) :
    Grounded scope (object [("$reduce", object arguments)]) := by
  refine grounded_application (by decide) fun key value middle stated placed => ?_
  have given := (checkNamed_eq_ok.mp fits).2.1 _ (Keyed.mem_of_lookup stated)
  rw [← under_of_lookup stated]
  cases placed with
  | outer around =>
      have outer : ∀ key ∈ ["input", "initialValue", "in"] ++ [],
          key ∉ innerArguments "$reduce" → key = "input" ∨ key = "initialValue" := by decide
      rcases outer key given around with rfl | rfl
      · exact outside
      · exact before
  | element body => simp at body
  | reduction _ same starts =>
      cases typed.symm.trans same
      cases started.symm.trans starts
      exact inside
  | declarations binds => contradiction

theorem grounded_let {vars : List (String × Json)} {bindings : Bindings}
    (fits : checkNamed "$let" ["vars", "in"] [] arguments = .ok ())
    (declared : arguments.lookup "vars" = some (object vars))
    (typed : inferBindings scope "$let" vars = .ok bindings)
    (outside : ∀ entry ∈ vars, Grounded scope entry.2)
    (inside : Grounded (scope.bindAll bindings) (under "in" arguments)) :
    Grounded scope (object [("$let", object arguments)]) := by
  refine grounded_application (by decide) fun key value middle stated placed => ?_
  have given := (checkNamed_eq_ok.mp fits).2.1 _ (Keyed.mem_of_lookup stated)
  cases placed with
  | outer around =>
      have outer : ∀ key ∈ ["vars", "in"] ++ [], key ∉ innerArguments "$let" → key = "vars" := by
        decide
      obtain rfl := outer key given around
      cases declared.symm.trans stated
      refine grounded_object fun bound value held => ?_
      have member := Keyed.mem_of_lookup held
      refine ⟨fun binding => ?_, outside _ member⟩
      have invalid : ∀ name ∈ bindingOperators, isVariableName name = false := by decide
      have valid := ((inferBindings_eq_ok.mp typed).1 _ member).1
      rw [invalid bound binding] at valid
      contradiction
  | element body => simp at body
  | reduction reduces => contradiction
  | declarations _ same again =>
      rw [← under_of_lookup stated]
      cases declared.symm.trans same
      cases typed.symm.trans again
      exact inside

theorem grounded_of_hasType (typed : HasType scope value type) : Grounded scope value := by
  induction typed with
  | null => rintro inner text ⟨⟩
  | bool => rintro inner text ⟨⟩
  | number => rintro inner text ⟨⟩
  | text typed =>
      rintro inner text ⟨⟩ dollar
      exact Scope.refers_of_textType typed dollar
  | array _ each => exact grounded_array each
  | extended wrapper =>
      intro inner text evaluated
      cases evaluated with
      | entry unwrapped => simp [unwrapped] at wrapper
      | argument binding applied => simp [extendedKind?_of_binding binding applied] at wrapper
  | document unwrapped plain undotted _ each =>
      refine grounded_object fun key value stated => ⟨not_binding_of_plain plain stated, ?_⟩
      exact each _ (Keyed.mem_of_lookup stated)
  | literal =>
      intro inner text evaluated
      cases evaluated with
      | entry _ stated ordinary =>
          obtain ⟨rfl, _⟩ := lookup_single stated
          simp at ordinary
      | argument binding applied =>
          obtain ⟨rfl, _⟩ := lookup_single applied
          simp [bindingOperators] at binding
  | applied known ordinary divides _ each =>
      have inside := grounded_of_divides known ordinary divides each
      refine grounded_object fun key value stated => ?_
      obtain ⟨rfl, rfl⟩ := lookup_single stated
      exact ⟨fun binding => ordinary (List.mem_cons_of_mem _ binding), inside⟩
  | map fits named typed _ outside inside =>
      exact grounded_map fits named (infer_of_hasType typed) outside inside
  | filter fits named typed _ _ outside limited inside =>
      exact grounded_filter fits named (infer_of_hasType typed) outside limited inside
  | reduce fits typed started _ outside before inside =>
      exact grounded_reduce fits (infer_of_hasType typed) (infer_of_hasType started) outside
        before inside
  | lets fits stated names typed _ outside inside =>
      have bound := fun entry member => infer_of_hasType (typed entry member)
      exact grounded_let fits stated (inferBindings_of_each names bound) outside inside

/-- Every argument of an accepted binding operator has a scope, the name of the variable apart. -/
theorem exists_argumentScope
    (accepted : (object [(name, object arguments)]).infer scope = .ok type)
    (binding : name ∈ bindingOperators) (evaluated : key ≠ "as") :
    ∃ middle, ArgumentScope scope name arguments key middle := by
  by_cases around : key ∉ innerArguments name
  · exact ⟨scope, .outer around⟩
  have body := Decidable.not_not.mp around
  have applied : List.lookup name [(name, object arguments)] = some (object arguments) :=
    List.lookup_cons_self
  cases hasType_of_infer accepted with
  | extended wrapper => simp [extendedKind?_of_binding binding applied] at wrapper
  | document _ plain => exact absurd binding (not_binding_of_plain plain applied)
  | literal => simp [bindingOperators] at binding
  | applied _ ordinary => exact absurd (List.mem_cons_of_mem _ binding) ordinary
  | map _ named typed =>
      have atBody : key = "in" := by simpa [innerArguments, evaluated] using body
      exact ⟨_, .element (by simp [atBody]) named (infer_of_hasType typed)⟩
  | filter _ named typed =>
      have atBody : key = "cond" := by simpa [innerArguments, evaluated] using body
      exact ⟨_, .element (by simp [atBody]) named (infer_of_hasType typed)⟩
  | reduce _ typed started =>
      obtain rfl : key = "in" := by simpa [innerArguments] using body
      exact ⟨_, .reduction rfl (infer_of_hasType typed) (infer_of_hasType started)⟩
  | lets _ stated names each =>
      obtain rfl : key = "in" := by simpa [innerArguments] using body
      have typed := fun entry member => infer_of_hasType (each entry member)
      exact ⟨_, .declarations rfl stated (inferBindings_of_each names typed)⟩

end Json

/-- Every evaluated text of an accepted expression that starts with a dollar sign refers to
something in the scope where it stands; the paths that start at no variable are those of the one
root. -/
theorem references_refer {scope inner : Scope} {expression : Json} {type : Schema} {text : String}
    (accepted : expression.infer scope = .ok type)
    (evaluated : Json.Evaluates scope expression inner (.string text))
    (reference : Text.startsWithDollar text = true) :
    inner.root = scope.root ∧ inner.options = scope.options ∧ inner.Refers text := by
  obtain ⟨root, options⟩ := evaluated.root
  have typed := Json.infer_eq_ok_iff_hasType.mp accepted
  exact ⟨root, options, Json.grounded_of_hasType typed inner text evaluated reference⟩

def pricedLine : Schema := closedObject [("price", .number)]

def basket : Schema := closedObject [("lines", .array pricedLine), ("tax", .number)]

def taxedPrice : Json :=
  .object [("$multiply", .array [.string "$$line.price", .string "$$rate"])]

def lineMapping : List (String × Json) :=
  [("input", .string "$lines"), ("as", .string "line"), ("in", taxedPrice)]

/-- The rate of tax, bound around the mapping: the body of the mapping reads both variables. -/
def ratedMapping : List (String × Json) :=
  [("vars", .object [("rate", .string "$tax")]), ("in", .object [("$map", .object lineMapping)])]

def ratedScope : Scope := (Scope.ofRoot basket {} []).bindAll [("rate", .number)]

theorem references_refer_basket :
    ((Json.object [("$let", .object ratedMapping)]).infer (Scope.ofRoot basket {} [])).isOk =
        true ∧
      (ratedScope.bind "line" pricedLine).Refers "$$line.price" ∧
      (ratedScope.bind "line" pricedLine).Refers "$$rate" := by
  have passes : ((Json.object [("$let", .object ratedMapping)]).infer
      (Scope.ofRoot basket {} [])).isOk = true := by
    decide +kernel
  obtain ⟨type, accepted⟩ := isOk_iff_exists.mp passes
  have rated : ArgumentScope (Scope.ofRoot basket {} []) "$let" ratedMapping "in" ratedScope :=
    .declarations rfl rfl rfl
  have mapped : ArgumentScope ratedScope "$map" lineMapping "in"
      (ratedScope.bind "line" pricedLine) :=
    @ArgumentScope.element _ _ _ _ _ (.array pricedLine) (by decide) rfl rfl
  have refers (text : String) (inside : .string text ∈ [Json.string "$$line.price", .string "$$rate"])
      (reference : Text.startsWithDollar text = true) :
      (ratedScope.bind "line" pricedLine).Refers text := by
    have factor : Json.Evaluates (ratedScope.bind "line" pricedLine) taxedPrice
        (ratedScope.bind "line" pricedLine) (.string text) :=
      @Json.Evaluates.entry _ _ _ "$multiply" _ _ rfl rfl (by decide) (.item inside .whole)
    have inMapping : Json.Evaluates ratedScope (.object [("$map", .object lineMapping)])
        (ratedScope.bind "line" pricedLine) (.string text) :=
      @Json.Evaluates.argument _ _ _ _ _ "$map" "in" _ _ (by decide) rfl rfl mapped factor
    exact (references_refer accepted
      (@Json.Evaluates.argument _ _ _ _ _ "$let" "in" _ _ (by decide) rfl rfl rated inMapping)
      reference).2.2
  exact ⟨passes, refers _ (by simp) rfl, refers _ (by simp) rfl⟩

end DocTyping
