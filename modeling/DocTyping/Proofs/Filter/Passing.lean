import DocTyping.Proofs.Expression.Typing
import DocTyping.Proofs.Filter.Levels
import DocTyping.Proofs.Filter.Rules

namespace DocTyping

/-!
# Checks by the rules of filters

A value is accepted in its part of a filter exactly if it passes by the rules.
What a check looks at is no larger than the value, so what it accepts passes by
recursion on the size; a part of the same size comes earlier in the order in which
the parts are treated here.
-/

/-- An operator with its argument is no extended literal. -/
theorem FilterOperator.isOperatorObject_single {name : String} {operator : FilterOperator}
    {argument : Json} (known : named? name = some operator) :
    isOperatorObject [(name, argument)] = true := by
  have table : ∀ operator ∈ all,
      Text.startsWithDollar operator.name = true ∧ operator.name ∉ Json.wrapperKeys := by
    decide +kernel
  obtain ⟨listed, rfl⟩ := named?_eq_some known
  obtain ⟨dollar, other⟩ := table operator listed
  have unwrapped : Json.extendedKind? [(operator.name, argument)] = none :=
    Json.wrapperKind?_of_not_mem other
  simp [isOperatorObject, unwrapped, dollar]

namespace Json

variable {context : FilterContext} {root : Schema} {target : FilterTarget} {name : String}
  {value argument : Json} {entries : List (String × Json)} {items : List Json}
  {operator : FilterOperator}

def ClauseAccepted (context : FilterContext) (root : Schema) (entry : String × Json) : Prop :=
  (Text.startsWithDollar entry.1 = true → entry.2.checkRoot context root entry.1 = .ok ()) ∧
    (Text.startsWithDollar entry.1 = false → ∃ target, context.target root entry.1 = .ok target ∧
      entry.2.checkCondition context root target = .ok ())

theorem checkClauses_eq_ok :
    checkClauses context root entries = .ok () ↔
      ∀ entry ∈ entries, ClauseAccepted context root entry := by
  induction entries with
  | nil => simp [checkClauses]
  | cons entry rest ih =>
      obtain ⟨key, condition⟩ := entry
      rw [List.forall_mem_cons, checkClauses, ← ih]
      cases marked : Text.startsWithDollar key with
      | true =>
          simp only [↓reduceIte, unit_bind_eq_ok, ClauseAccepted, marked, forall_const,
            reduceCtorEq, false_implies, and_true]
      | false =>
          simp only [Bool.false_eq_true, ↓reduceIte, bind_eq_ok, ClauseAccepted, marked,
            false_implies, true_and, forall_const]
          constructor
          · intro accepted
            obtain ⟨target, addressed, _, head, later⟩ := accepted
            exact ⟨⟨target, addressed, head⟩, later⟩
          · intro accepted
            obtain ⟨⟨target, addressed, head⟩, later⟩ := accepted
            exact ⟨target, addressed, (), head, later⟩

theorem checkFilters_eq_ok {filters : List Json} :
    checkFilters context root filters = .ok () ↔
      ∀ filter ∈ filters, filter.checkFilter context root = .ok () := by
  induction filters with
  | nil => simp [checkFilters]
  | cons first rest ih =>
      rw [checkFilters, unit_bind_eq_ok, ih, List.forall_mem_cons]

theorem checkOperators_eq_ok :
    checkOperators context root target entries = .ok () ↔
      ∀ entry ∈ entries, ∃ operator, target.operator entry.1 = .ok operator ∧
        checkOperator context root target operator entry.1 entry.2 = .ok () := by
  induction entries with
  | nil => simp [checkOperators]
  | cons entry rest ih =>
      rw [List.forall_mem_cons, ← ih, checkOperators, unit_bind_eq_ok, within_eq_ok, bind_eq_ok]
      rfl

def checkItem (context : FilterContext) (root : Schema) (target : FilterTarget) (item : Json) :
    Checked Unit :=
  match item.elementFilter? with
  | some argument => argument.checkElementFilter context root target
  | none => target.checkElement item

theorem checkEachElement_cons {item : Json} :
    checkEachElement context root target (item :: items) =
      (checkItem context root target item >>= fun _ =>
        checkEachElement context root target items) := by
  by_cases single : ∃ key argument, item = object [(key, argument)]
  · obtain ⟨key, argument, rfl⟩ := single
    by_cases named : key = "$elemMatch" <;> simp [checkEachElement, checkItem, elementFilter?, named]
  · have plain : item.elementFilter? = none := by
      unfold elementFilter?
      split
      · rename_i key argument
        exact absurd ⟨key, argument, rfl⟩ single
      · rfl
    rw [checkEachElement, checkItem, plain]
    intro key argument same
    exact single ⟨key, argument, same⟩

theorem checkEachElement_eq_ok :
    checkEachElement context root target items = .ok () ↔
      ∀ item ∈ items, checkItem context root target item = .ok () := by
  induction items with
  | nil => simp [checkEachElement]
  | cons item rest ih =>
      rw [checkEachElement_cons, unit_bind_eq_ok, ih, List.forall_mem_cons]

theorem isLiteralCondition_of_checkCondition
    (accepted : value.checkCondition context root target = .ok ()) :
    (value.isLiteralCondition = true ∧ target.checkLiteral true value = .ok ()) ∨
      ∃ entries, value = object entries ∧ isOperatorObject entries = true ∧
        target.checkSiblings entries = .ok () ∧
          checkOperators context root target entries = .ok () := by
  cases value with
  | object entries =>
      by_cases consists : isOperatorObject entries = true
      · obtain ⟨siblings, operators⟩ := checkCondition_operators accepted consists
        exact .inr ⟨entries, rfl, consists, siblings, operators⟩
      · unfold checkCondition at accepted
        rw [if_neg consists] at accepted
        split at accepted
        · contradiction
        · rename_i unmixed
          refine .inl ⟨?_, accepted⟩
          simp only [isLiteralCondition]
          cases wrapper : extendedKind? entries with
          | none => simp_all
          | some kind => simp_all
  | _ => exact .inl ⟨rfl, accepted⟩

theorem checkCondition_of_literal (plain : value.isLiteralCondition = true)
    (fits : target.checkLiteral true value = .ok ()) :
    value.checkCondition context root target = .ok () := by
  cases value with
  | object entries =>
      simp only [isLiteralCondition, Bool.and_eq_true, Bool.not_eq_true', Bool.or_eq_true,
        Option.isSome_iff_ne_none] at plain
      obtain ⟨notOperators, unmixed⟩ := plain
      unfold checkCondition
      rw [if_neg (by simp [notOperators]), if_neg, fits]
      cases wrapper : extendedKind? entries with
      | none => simp_all
      | some kind => simp
  | _ => exact fits

theorem checkNegation_accepted (accepted : value.checkNegation context root target = .ok ()) :
    (value.isRegex = true ∧ target.checkPatternNegation = .ok ()) ∨
      (value.isLiteralNegation = true ∧ target.checkLiteral false value = .ok ()) ∨
        ∃ entries, value = object entries ∧ isOperatorObject entries = true ∧
          target.checkSiblings entries = .ok () ∧
            checkOperators context root target entries = .ok () := by
  cases value with
  | object entries =>
      by_cases consists : isOperatorObject entries = true
      · obtain ⟨siblings, operators⟩ := checkNegation_operators accepted consists
        exact .inr (.inr ⟨entries, rfl, consists, siblings, operators⟩)
      · unfold checkNegation at accepted
        rw [if_neg consists] at accepted
        split at accepted
        · rename_i pattern
          exact .inl ⟨pattern, accepted⟩
        · rename_i noPattern
          exact .inr (.inl ⟨by simp_all [isLiteralNegation], accepted⟩)
  | _ => exact .inr (.inl ⟨rfl, accepted⟩)

theorem checkNegation_of_pattern (pattern : value.isRegex = true)
    (fits : target.checkPatternNegation = .ok ()) :
    value.checkNegation context root target = .ok () := by
  cases value with
  | object entries =>
      unfold checkNegation
      rw [if_pos pattern, fits]
  | _ => contradiction

theorem checkNegation_of_literal (plain : value.isLiteralNegation = true)
    (fits : target.checkLiteral false value = .ok ()) :
    value.checkNegation context root target = .ok () := by
  cases value with
  | object entries =>
      simp only [isLiteralNegation, Bool.and_eq_true, Bool.not_eq_true'] at plain
      unfold checkNegation
      rw [if_neg (by simp [plain.1]), if_neg (by simp [plain.2]), fits]
  | _ => exact fits

def Accepted (context : FilterContext) (value : Json) : FilterPart → Prop
  | .filter root => value.checkFilter context root = .ok ()
  | .argument root operator => value.checkRoot context root operator = .ok ()
  | .condition root target => value.checkCondition context root target = .ok ()
  | .operators root target => ∃ entries, value = object entries ∧
      isOperatorObject entries = true ∧ target.checkSiblings entries = .ok () ∧
        checkOperators context root target entries = .ok ()
  | .operand root target name => ∃ operator, target.operator name = .ok operator ∧
      checkOperator context root target operator name value = .ok ()
  | .item root target => checkItem context root target value = .ok ()
  | .element root target => value.checkElementFilter context root target = .ok ()
  | .negation root target => value.checkNegation context root target = .ok ()

/-- What strong induction on the size of a value gives. -/
def PartsPass (context : FilterContext) (value : Json) : Prop :=
  ∀ part inner, sizeOf inner < sizeOf value → Accepted context inner part →
    Passes context part inner

theorem passes_filter (parts : PartsPass context value)
    (accepted : value.checkFilter context root = .ok ()) : Passes context (.filter root) value := by
  obtain ⟨entries, rfl, unwrapped, clauses⟩ := checkFilter_eq_ok.mp accepted
  have each := checkClauses_eq_ok.mp clauses
  refine .filter unwrapped ?_ ?_ ?_
  · intro entry member marked
    exact parts (.argument root entry.1) _ (sizeOf_entry member) ((each entry member).1 marked)
  · intro entry member field
    obtain ⟨target, addressed, _⟩ := (each entry member).2 field
    exact ⟨target, addressed⟩
  · intro entry member field target addressed
    obtain ⟨other, again, checked⟩ := (each entry member).2 field
    cases addressed.symm.trans again
    exact parts (.condition root target) _ (sizeOf_entry member) checked

theorem passes_argument (parts : PartsPass context value)
    (accepted : value.checkRoot context root name = .ok ()) :
    Passes context (.argument root name) value := by
  have known := checkRoot_known accepted
  unfold checkRoot at accepted
  rw [if_neg (by simpa using known)] at accepted
  split at accepted
  · rename_i joins
    split at accepted
    · rename_i filter filters
      obtain ⟨head, later⟩ := unit_bind_eq_ok.mp accepted
      have each : ∀ inner ∈ filter :: filters, inner.checkFilter context root = .ok () :=
        List.forall_mem_cons.mpr ⟨head, checkFilters_eq_ok.mp later⟩
      refine .junction joins (List.cons_ne_nil filter filters) ?_
      intro inner member
      exact parts (.filter root) inner (sizeOf_item member) (each inner member)
    · contradiction
  · rename_i single
    split at accepted
    · rename_i named
      subst named
      obtain ⟨type, typed, _⟩ := bind_eq_ok.mp accepted
      exact .expression typed
    · rename_i plain
      exact .plainArgument known (by simpa using single) plain accepted

theorem passes_operators (parts : PartsPass context (object entries))
    (consists : isOperatorObject entries = true) (siblings : target.checkSiblings entries = .ok ())
    (accepted : checkOperators context root target entries = .ok ()) :
    Passes context (.operators root target) (object entries) := by
  refine .operators consists siblings ?_
  intro entry member
  exact parts (.operand root target entry.1) _ (sizeOf_entry member)
    (checkOperators_eq_ok.mp accepted entry member)

theorem passes_condition (parts : PartsPass context value)
    (accepted : value.checkCondition context root target = .ok ()) :
    Passes context (.condition root target) value := by
  rcases isLiteralCondition_of_checkCondition accepted with
    ⟨plain, fits⟩ | ⟨entries, rfl, consists, siblings, operators⟩
  · exact .literal plain fits
  · exact .condition (passes_operators parts consists siblings operators)

theorem passes_negation (parts : PartsPass context value)
    (accepted : value.checkNegation context root target = .ok ()) :
    Passes context (.negation root target) value := by
  rcases checkNegation_accepted accepted with
    ⟨pattern, fits⟩ | ⟨plain, fits⟩ | ⟨entries, rfl, consists, siblings, operators⟩
  · exact .negatedPattern pattern fits
  · exact .negatedLiteral plain fits
  · exact .negatedOperators (passes_operators parts consists siblings operators)

theorem passes_element (parts : PartsPass context value)
    (accepted : value.checkElementFilter context root target = .ok ()) :
    Passes context (.element root target) value := by
  unfold checkElementFilter at accepted
  split at accepted
  · split at accepted
    · rename_i entries composite
      have filters : (object entries).checkFilter context target.element = .ok () := accepted
      exact .documentElement composite (passes_filter parts filters)
    · rename_i scalar
      split at accepted
      · rename_i consists
        obtain ⟨siblings, operators⟩ := unit_bind_eq_ok.mp accepted
        exact .scalarElement (by simpa using scalar)
          (passes_operators parts consists siblings operators)
      · contradiction
  · contradiction

theorem passes_item (parts : PartsPass context value)
    (accepted : checkItem context root target value = .ok ()) :
    Passes context (.item root target) value := by
  unfold checkItem at accepted
  split at accepted
  · rename_i argument stated
    refine .matchedItem stated (parts (.element root target) argument ?_ accepted)
    unfold elementFilter? at stated
    split at stated
    · split at stated
      · cases stated
        exact sizeOf_argument
      · contradiction
    · contradiction
  · rename_i plain
    exact .heldItem plain accepted

theorem passes_operand (parts : PartsPass context value)
    (known : target.operator name = .ok operator)
    (accepted : checkOperator context root target operator name value = .ok ()) :
    Passes context (.operand root target name) value := by
  unfold checkOperator at accepted
  split at accepted
  · rename_i form
    unfold checkElements at accepted
    split at accepted
    · rename_i items
      refine .items known form ?_
      intro item member
      exact parts (.item root target) item (sizeOf_item member)
        (checkEachElement_eq_ok.mp accepted item member)
    · contradiction
  · rename_i form
    exact .element known form (passes_element parts accepted)
  · rename_i form
    exact .negation known form (passes_negation parts accepted)
  · rename_i form
    obtain ⟨type, typed, _⟩ := bind_eq_ok.mp accepted
    exact .computed known form typed
  · rename_i notElements notFilter notNegation notExpression
    refine .plainOperand known ?_ accepted
    simp only [nestingForms, List.mem_cons, List.not_mem_nil, or_false, not_or]
    exact ⟨notElements, notFilter, notNegation, notExpression⟩

theorem passes_of_accepted {context : FilterContext} {part : FilterPart} {value : Json}
    (accepted : Accepted context value part) : Passes context part value := by
  have parts : PartsPass context value := fun _ _ _ inside => passes_of_accepted inside
  cases part with
  | filter root => exact passes_filter parts accepted
  | argument root operator => exact passes_argument parts accepted
  | condition root target => exact passes_condition parts accepted
  | operators root target =>
      obtain ⟨entries, rfl, consists, siblings, operators⟩ := accepted
      exact passes_operators parts consists siblings operators
  | operand root target name =>
      obtain ⟨operator, known, checked⟩ := accepted
      exact passes_operand parts known checked
  | item root target => exact passes_item parts accepted
  | element root target => exact passes_element parts accepted
  | negation root target => exact passes_negation parts accepted
termination_by sizeOf value

theorem checkRoot_of_single (known : name ∈ FilterOperator.rootNames)
    (single : isJunction name = false) :
    value.checkRoot context root name =
      if name = "$expr" then (do let _ ← value.infer (context.scope root))
      else checkRootArgument name value := by
  unfold checkRoot
  rw [if_neg (by simpa using known), if_neg (by simp [single])]

theorem rootNames_of_isJunction (joins : isJunction name = true) :
    name ∈ FilterOperator.rootNames := by
  simp only [isJunction, Bool.or_eq_true, beq_iff_eq] at joins
  rcases joins with (rfl | rfl) | rfl <;> decide

theorem accepted_of_passes {part : FilterPart} (passes : Passes context part value) :
    Accepted context value part := by
  induction passes with
  | @filter root entries unwrapped _ addressed _ operators fields =>
      refine checkFilter_eq_ok.mpr ⟨entries, rfl, unwrapped, checkClauses_eq_ok.mpr ?_⟩
      intro entry member
      refine ⟨operators entry member, fun field => ?_⟩
      obtain ⟨target, resolves⟩ := addressed entry member field
      exact ⟨target, resolves, fields entry member field target resolves⟩
  | @junction root operator filters joins some _ each =>
      obtain ⟨first, rest, rfl⟩ := List.exists_cons_of_ne_nil some
      have known := rootNames_of_isJunction joins
      obtain ⟨head, later⟩ := List.forall_mem_cons.mp each
      change checkRoot context root operator (array (first :: rest)) = .ok ()
      unfold checkRoot
      rw [if_neg (by simpa using known), if_pos joins]
      exact unit_bind_eq_ok.mpr ⟨head, checkFilters_eq_ok.mpr later⟩
  | @expression root type argument typed =>
      refine (checkRoot_of_single (by decide) (by decide)).trans ?_
      rw [if_pos rfl, typed]
      rfl
  | plainArgument known single plain fits =>
      refine (checkRoot_of_single known single).trans ?_
      rw [if_neg plain, fits]
  | literal plain fits => exact checkCondition_of_literal plain fits
  | condition _ inside =>
      obtain ⟨entries, rfl, consists, siblings, operators⟩ := inside
      change (object entries).checkCondition context _ _ = .ok ()
      unfold checkCondition
      rw [if_pos consists]
      exact unit_bind_eq_ok.mpr ⟨siblings, operators⟩
  | operators consists siblings _ each =>
      exact ⟨_, rfl, consists, siblings, checkOperators_eq_ok.mpr each⟩
  | @plainOperand root target name operator argument known plain fits =>
      refine ⟨operator, known, ?_⟩
      simp only [nestingForms, List.mem_cons, List.not_mem_nil, or_false, not_or] at plain
      unfold checkOperator
      split
      all_goals simp_all
  | @computed root type target name operator argument known form typed =>
      refine ⟨operator, known, ?_⟩
      unfold checkOperator
      simp only [form, typed]
      rfl
  | @items root target name operator items known form _ each =>
      refine ⟨operator, known, ?_⟩
      unfold checkOperator
      simp only [form, checkElements]
      exact checkEachElement_eq_ok.mpr each
  | @element root target name operator argument known form _ inside =>
      refine ⟨operator, known, ?_⟩
      unfold checkOperator
      simp only [form]
      exact inside
  | @negation root target name operator argument known form _ inside =>
      refine ⟨operator, known, ?_⟩
      unfold checkOperator
      simp only [form]
      exact inside
  | heldItem plain fits =>
      simp only [Accepted, checkItem, plain]
      exact fits
  | matchedItem stated _ inside =>
      simp only [Accepted, checkItem, stated]
      exact inside
  | @documentElement root target argument composite _ inside =>
      obtain ⟨entries, rfl, unwrapped, clauses⟩ := checkFilter_eq_ok.mp inside
      change (object entries).checkElementFilter context root target = .ok ()
      unfold checkElementFilter
      rw [if_pos composite, if_neg (by simp [unwrapped]), clauses]
  | @scalarElement root target argument scalar _ inside =>
      obtain ⟨entries, rfl, consists, siblings, operators⟩ := inside
      change (object entries).checkElementFilter context root target = .ok ()
      unfold checkElementFilter
      rw [if_neg (by simp [scalar]), if_pos consists]
      exact unit_bind_eq_ok.mpr ⟨siblings, operators⟩
  | negatedPattern pattern fits => exact checkNegation_of_pattern pattern fits
  | @negatedOperators root target argument _ inside =>
      obtain ⟨entries, rfl, consists, siblings, operators⟩ := inside
      have noPattern : (object entries).isRegex = false := by
        simp [isRegex, extended?, object?, extendedKind?_of_isOperatorObject consists]
      change (object entries).checkNegation context root target = .ok ()
      unfold checkNegation
      rw [if_neg (by simp [noPattern]), if_pos consists]
      exact unit_bind_eq_ok.mpr ⟨siblings, operators⟩
  | negatedLiteral plain fits => exact checkNegation_of_literal plain fits

/-- A filter is accepted exactly if it passes by the rules. -/
theorem checkFilter_iff_passes :
    value.checkFilter context root = .ok () ↔ Passes context (.filter root) value :=
  ⟨fun accepted => @passes_of_accepted context (.filter root) value accepted, accepted_of_passes⟩

end Json

end DocTyping
