import DocTyping.Filter.Check
import DocTyping.Proofs.Checked
import Mathlib.Logic.Relation

namespace DocTyping

/-!
# Levels of a filter

A filter nests: junctions hold filters, conditions hold operators, and operators
hold further operators or filters on elements.  Acceptance passes from a level to
those right below it, so what it asks of one level holds of all of them.
-/

/-- A level of a filter: the clauses that documents of a schema are put to, or the operators
that a node is put to. -/
inductive FilterLevel where
  | clauses (root : Schema) (entries : List (String × Json))
  | operators (root node : Schema) (entries : List (String × Json))

namespace FilterLevel

/-- The level of a filter on elements: clauses where an element may be a document, operators
where it is none. -/
def ofElement (root element : Schema) (entries : List (String × Json)) : FilterLevel :=
  if element.isObject || element.isUnknown then .clauses element entries
  else .operators root element entries

/-- One level right below another.  An item of `$all` is a filter on elements if `$elemMatch`
is its only key. -/
inductive Holds (config : Configuration) : FilterLevel → FilterLevel → Prop
  | junction {root : Schema} {entries inner : List (String × Json)} {name : String}
      {filters : List Json} (stated : (name, .array filters) ∈ entries)
      (joins : isJunction name = true) (member : .object inner ∈ filters) :
      Holds config (.clauses root entries) (.clauses root inner)
  | condition {root : Schema} {entries inner : List (String × Json)} {path : String}
      {resolved : Resolved} (stated : (path, .object inner) ∈ entries)
      (field : Text.startsWithDollar path = false)
      (resolves : resolveText root path config.resolveOptions = .ok resolved)
      (consists : isOperatorObject inner = true) :
      Holds config (.clauses root entries) (.operators root resolved.node inner)
  | negation {root node : Schema} {entries inner : List (String × Json)}
      (stated : ("$not", .object inner) ∈ entries) (consists : isOperatorObject inner = true) :
      Holds config (.operators root node entries) (.operators root node inner)
  | element {root element : Schema} {entries inner : List (String × Json)}
      (stated : ("$elemMatch", .object inner) ∈ entries) :
      Holds config (.operators root (.array element) entries) (ofElement root element inner)
  | everyElement {root element : Schema} {entries inner : List (String × Json)}
      {items : List Json} (stated : ("$all", .array items) ∈ entries)
      (member : .object [("$elemMatch", .object inner)] ∈ items) :
      Holds config (.operators root (.array element) entries) (ofElement root element inner)

/-- What is asked of a level: its fields resolve without placeholders, its operators are known
and fit the node, and pattern flags stand beside a pattern. -/
def Gated (config : Configuration) : FilterLevel → Prop
  | .clauses root entries => ∀ entry ∈ entries,
      if Text.startsWithDollar entry.1 then entry.1 ∈ FilterOperator.rootNames
      else ∃ resolved, resolveText root entry.1
        { allowPlaceholders := false, maxDepth := config.maxPathDepth } = .ok resolved
  | .operators _ node entries =>
      (∀ entry ∈ entries, ∃ operator ∈ FilterOperator.all,
        operator.name = entry.1 ∧ operator.capability.admits node = true) ∧
      (Keyed.has entries "$options" = true → Keyed.has entries "$regex" = true)

/-- A level that passes its check, for some target on its node. -/
def Accepted (context : FilterContext) : FilterLevel → Prop
  | .clauses root entries => Json.checkClauses context root entries = .ok ()
  | .operators root node entries => ∃ target : FilterTarget, target.node = node ∧
      target.checkSiblings entries = .ok () ∧
        Json.checkOperators context root target entries = .ok ()

end FilterLevel

namespace FilterTarget

variable {target : FilterTarget} {entries : List (String × Json)} {name : String}

theorem checkSiblings_eq_ok :
    target.checkSiblings entries = .ok () ↔
      (Keyed.has entries "$options" = true → Keyed.has entries "$regex" = true) := by
  unfold checkSiblings
  cases options : Keyed.has entries "$options" with
  | false => simp
  | true =>
      cases pattern : Keyed.has entries "$regex" with
      | true => simp
      | false => simp [within_eq_ok]

theorem checkLiteral_eq_ok {allowPattern : Bool} {value : Json} :
    target.checkLiteral allowPattern value = .ok () ↔ target.fits allowPattern value = true := by
  unfold checkLiteral
  split
  · rename_i fits
    simp [fits]
  · rename_i unfit
    simp [unfit]

theorem checkLiterals_eq_ok {values : List Json} :
    target.checkLiterals values = .ok () ↔ ∀ value ∈ values, target.fits true value = true := by
  induction values with
  | nil => simp [checkLiterals]
  | cons value rest ih =>
      rw [checkLiterals, unit_bind_eq_ok, checkLiteral_eq_ok, ih, List.forall_mem_cons]

theorem checkElement_eq_ok {value : Json} :
    target.checkElement value = .ok () ↔
      target.element.admits value false .full = true ∨
        (value.isRegex = true ∧ Capability.string.admits target.element = true) := by
  unfold checkElement
  split
  · rename_i fits
    simpa using fits
  · rename_i unfit
    simpa using unfit

theorem checkPatternNegation_eq_ok :
    target.checkPatternNegation = .ok () ↔ target.node.admitsPattern = true := by
  unfold checkPatternNegation
  split
  · rename_i admitted
    simp [admitted]
  · rename_i refused
    simp [refused]

theorem operator_eq_ok {operator : FilterOperator} :
    target.operator name = .ok operator ↔
      FilterOperator.named? name = some operator ∧
        operator.capability.admits target.node = true := by
  unfold FilterTarget.operator
  cases known : FilterOperator.named? name with
  | none => simp
  | some held =>
      simp only [Option.some.injEq]
      split
      · rename_i admitted
        constructor
        · intro found
          cases found
          exact ⟨rfl, admitted⟩
        · rintro ⟨rfl, _⟩
          rfl
      · rename_i refused
        constructor
        · intro found
          contradiction
        · rintro ⟨rfl, admitted⟩
          exact absurd admitted refused

theorem element_of_array {element : Schema} (array : target.node = .array element) :
    target.element = element := by
  simp [FilterTarget.element, array, Schema.element?]

end FilterTarget

theorem FilterOperator.named?_eq_some {name : String} {operator : FilterOperator}
    (known : named? name = some operator) : operator ∈ all ∧ operator.name = name :=
  ⟨List.mem_of_find?_eq_some known, by simpa using List.find?_some known⟩

namespace Json

variable {context : FilterContext} {root : Schema} {target : FilterTarget}
  {entries : List (String × Json)}

theorem checkFilter_eq_ok {filter : Json} :
    filter.checkFilter context root = .ok () ↔
      ∃ entries, filter = .object entries ∧ extendedKind? entries = none ∧
        checkClauses context root entries = .ok () := by
  cases filter with
  | object held =>
      unfold checkFilter
      cases wrapper : extendedKind? held with
      | none => simp [wrapper]
      | some kind => simp [wrapper, refuseFilter]
  | _ => simp [checkFilter, refuseFilter]

theorem checkClauses_of_mem {key : String} {condition : Json}
    (accepted : checkClauses context root entries = .ok ()) (member : (key, condition) ∈ entries) :
    (Text.startsWithDollar key = true ∧ condition.checkRoot context root key = .ok ()) ∨
      (Text.startsWithDollar key = false ∧ ∃ target, context.target root key = .ok target ∧
        condition.checkCondition context root target = .ok ()) := by
  induction entries with
  | nil => simp at member
  | cons entry rest ih =>
      obtain ⟨name, first⟩ := entry
      unfold checkClauses at accepted
      split at accepted
      · rename_i operator
        obtain ⟨_, head, later⟩ := bind_eq_ok.mp accepted
        rcases List.mem_cons.mp member with here | onward
        · cases here
          exact .inl ⟨operator, head⟩
        · exact ih later onward
      · rename_i field
        simp only [bind_eq_ok] at accepted
        obtain ⟨target, addressed, _, head, later⟩ := accepted
        rcases List.mem_cons.mp member with here | onward
        · cases here
          exact .inr ⟨by simpa using field, target, addressed, head⟩
        · exact ih later onward

theorem checkFilters_of_mem {filters : List Json} {filter : Json}
    (accepted : checkFilters context root filters = .ok ()) (member : filter ∈ filters) :
    filter.checkFilter context root = .ok () := by
  induction filters with
  | nil => simp at member
  | cons first rest ih =>
      simp only [checkFilters, bind_eq_ok] at accepted
      obtain ⟨_, head, later⟩ := accepted
      rcases List.mem_cons.mp member with rfl | onward
      · exact head
      · exact ih later onward

theorem checkRoot_known {name : String} {argument : Json}
    (accepted : argument.checkRoot context root name = .ok ()) :
    name ∈ FilterOperator.rootNames := by
  unfold checkRoot at accepted
  split at accepted
  · contradiction
  · rename_i known
    simpa using known

theorem checkRoot_junction {name : String} {filters : List Json} {filter : Json}
    (accepted : (array filters).checkRoot context root name = .ok ())
    (joins : isJunction name = true) (member : filter ∈ filters) :
    filter.checkFilter context root = .ok () := by
  unfold checkRoot at accepted
  split at accepted
  · contradiction
  · cases filters with
    | nil => simp at member
    | cons first rest =>
        simp only [bind_eq_ok] at accepted
        obtain ⟨_, head, later⟩ := accepted
        rcases List.mem_cons.mp member with rfl | onward
        · exact head
        · exact checkFilters_of_mem later onward

theorem checkCondition_operators
    (accepted : (object entries).checkCondition context root target = .ok ())
    (consists : isOperatorObject entries = true) :
    target.checkSiblings entries = .ok () ∧
      checkOperators context root target entries = .ok () := by
  unfold checkCondition at accepted
  rw [if_pos consists] at accepted
  obtain ⟨_, siblings, operators⟩ := bind_eq_ok.mp accepted
  exact ⟨siblings, operators⟩

def checkOperator (context : FilterContext) (root : Schema) (target : FilterTarget)
    (operator : FilterOperator) (name : String) (argument : Json) : Checked Unit :=
  match operator.argument with
  | .elementValues => checkElements context root target argument
  | .elementFilter => checkElementFilter context root target argument
  | .negation => checkNegation context root target argument
  | .expression => do
    let _ ← argument.infer (context.scope root)
  | form => form.check name target argument

theorem checkOperators_of_mem {name : String} {argument : Json}
    (accepted : checkOperators context root target entries = .ok ())
    (member : (name, argument) ∈ entries) :
    ∃ operator, target.operator name = .ok operator ∧
      checkOperator context root target operator name argument = .ok () := by
  induction entries with
  | nil => simp at member
  | cons entry rest ih =>
      obtain ⟨first, held⟩ := entry
      simp only [checkOperators, bind_eq_ok, within_eq_ok] at accepted
      obtain ⟨_, ⟨operator, known, head⟩, later⟩ := accepted
      rcases List.mem_cons.mp member with here | onward
      · cases here
        exact ⟨operator, known, head⟩
      · exact ih later onward

theorem extendedKind?_of_isOperatorObject (consists : isOperatorObject entries = true) :
    extendedKind? entries = none := by
  simp only [isOperatorObject, Bool.and_eq_true, Option.isNone_iff_eq_none] at consists
  exact consists.1.2

theorem startsWithDollar_of_isOperatorObject {entry : String × Json}
    (consists : isOperatorObject entries = true) (member : entry ∈ entries) :
    Text.startsWithDollar entry.1 = true := by
  simp only [isOperatorObject, Bool.and_eq_true, List.all_eq_true] at consists
  exact consists.2 entry member

theorem checkNegation_operators
    (accepted : (object entries).checkNegation context root target = .ok ())
    (consists : isOperatorObject entries = true) :
    target.checkSiblings entries = .ok () ∧
      checkOperators context root target entries = .ok () := by
  have noRegex : (object entries).isRegex = false := by
    simp [isRegex, extended?, object?, extendedKind?_of_isOperatorObject consists]
  unfold checkNegation at accepted
  rw [if_neg (by simp [noRegex]), if_pos consists] at accepted
  obtain ⟨_, siblings, operators⟩ := bind_eq_ok.mp accepted
  exact ⟨siblings, operators⟩

theorem checkElementFilter_accepted {element : Schema}
    (accepted : (object entries).checkElementFilter context root target = .ok ())
    (array : target.node = .array element) :
    (FilterLevel.ofElement root element entries).Accepted context := by
  unfold checkElementFilter at accepted
  rw [FilterTarget.element_of_array array] at accepted
  unfold FilterLevel.ofElement
  split at accepted
  · rename_i composite
    rw [if_pos composite]
    split at accepted
    · contradiction
    · exact accepted
  · rename_i scalar
    rw [if_neg scalar]
    split at accepted
    · obtain ⟨_, siblings, operators⟩ := bind_eq_ok.mp accepted
      exact ⟨target.ofElement, FilterTarget.element_of_array array, siblings, operators⟩
    · contradiction

theorem checkEachElement_of_mem {items : List Json} {argument : Json}
    (accepted : checkEachElement context root target items = .ok ())
    (member : object [("$elemMatch", argument)] ∈ items) :
    argument.checkElementFilter context root target = .ok () := by
  induction items with
  | nil => simp at member
  | cons item rest ih =>
      unfold checkEachElement at accepted
      rcases List.mem_cons.mp member with rfl | onward
      · simp only [↓reduceIte, bind_eq_ok] at accepted
        obtain ⟨_, head, _⟩ := accepted
        exact head
      · split at accepted
        · split at accepted
          · obtain ⟨_, _, later⟩ := bind_eq_ok.mp accepted
            exact ih later onward
          · obtain ⟨_, _, later⟩ := bind_eq_ok.mp accepted
            exact ih later onward
        · obtain ⟨_, _, later⟩ := bind_eq_ok.mp accepted
          exact ih later onward

end Json

namespace FilterLevel

variable {context : FilterContext} {level next : FilterLevel}

theorem Accepted.gated (accepted : level.Accepted context) : level.Gated context.config := by
  cases level with
  | clauses root entries =>
      rintro ⟨key, condition⟩ member
      rcases Json.checkClauses_of_mem accepted member with
        ⟨operator, checked⟩ | ⟨field, target, addressed, _⟩
      · rw [if_pos operator]
        exact Json.checkRoot_known checked
      · rw [if_neg (by simp [field])]
        obtain ⟨resolved, resolves, _⟩ := bind_eq_ok.mp addressed
        exact ⟨resolved, resolveChecked_eq_ok.mp resolves⟩
  | operators root node entries =>
      obtain ⟨target, rfl, siblings, operators⟩ := accepted
      refine ⟨?_, FilterTarget.checkSiblings_eq_ok.mp siblings⟩
      rintro ⟨name, argument⟩ member
      obtain ⟨operator, found, _⟩ := Json.checkOperators_of_mem operators member
      obtain ⟨known, admitted⟩ := FilterTarget.operator_eq_ok.mp found
      obtain ⟨listed, named⟩ := FilterOperator.named?_eq_some known
      exact ⟨operator, listed, named, admitted⟩

theorem Accepted.below (accepted : level.Accepted context)
    (held : Holds context.config level next) : next.Accepted context := by
  cases held with
  | @junction root entries inner name filters stated joins member =>
      rcases Json.checkClauses_of_mem accepted stated with ⟨_, checked⟩ | ⟨field, _⟩
      · have passed := Json.checkRoot_junction checked joins member
        obtain ⟨_, same, _, clauses⟩ := Json.checkFilter_eq_ok.mp passed
        cases same
        exact clauses
      · simp only [isJunction, Bool.or_eq_true, beq_iff_eq] at joins
        rcases joins with (rfl | rfl) | rfl <;> contradiction
  | @condition root entries inner path resolved stated field resolves consists =>
      rcases Json.checkClauses_of_mem accepted stated with
        ⟨operator, _⟩ | ⟨_, target, addressed, checked⟩
      · rw [field] at operator
        contradiction
      · obtain ⟨other, found, made⟩ := bind_eq_ok.mp addressed
        have same := (resolveChecked_eq_ok.mp found).symm.trans resolves
        cases same
        cases made
        exact ⟨_, rfl, Json.checkCondition_operators checked consists⟩
  | @negation root node entries inner stated consists =>
      obtain ⟨target, rfl, _, operators⟩ := accepted
      obtain ⟨operator, found, checked⟩ := Json.checkOperators_of_mem operators stated
      obtain ⟨known, _⟩ := FilterTarget.operator_eq_ok.mp found
      cases known
      exact ⟨target, rfl, Json.checkNegation_operators checked consists⟩
  | @element root element entries inner stated =>
      obtain ⟨target, array, _, operators⟩ := accepted
      obtain ⟨operator, found, checked⟩ := Json.checkOperators_of_mem operators stated
      obtain ⟨known, _⟩ := FilterTarget.operator_eq_ok.mp found
      cases known
      exact Json.checkElementFilter_accepted checked array
  | @everyElement root element entries inner items stated member =>
      obtain ⟨target, array, _, operators⟩ := accepted
      obtain ⟨operator, found, checked⟩ := Json.checkOperators_of_mem operators stated
      obtain ⟨known, _⟩ := FilterTarget.operator_eq_ok.mp found
      cases known
      exact Json.checkElementFilter_accepted (Json.checkEachElement_of_mem checked member) array

end FilterLevel

open Relation in
theorem checkFilter_gated {context : FilterContext} {root : Schema} {filter : Json}
    (accepted : filter.checkFilter context root = .ok ()) :
    ∃ entries, filter = .object entries ∧
      ∀ level, ReflTransGen (FilterLevel.Holds context.config) (.clauses root entries) level →
        level.Gated context.config := by
  obtain ⟨entries, rfl, _, clauses⟩ := Json.checkFilter_eq_ok.mp accepted
  refine ⟨entries, rfl, fun level nested => FilterLevel.Accepted.gated ?_⟩
  induction nested with
  | refl => exact clauses
  | tail _ held ih => exact ih.below held

def orderLine : Schema := closedObject [("tag", .string)]

def orders : Schema :=
  closedObject [("lines", .array orderLine), ("scores", .array (.scalar .int))]

def tagPattern : List (String × Json) := [("$regex", .string "^a"), ("$options", .string "i")]

def orderFilter : Json :=
  .object
    [("$and", .array [.object
      [("lines", .object [("$elemMatch", .object
        [("tag", .object [("$not", .object tagPattern)])])])]]),
      ("scores", .object [("$all", .array [.object
        [("$elemMatch", .object [("$gt", .ofInt 7)])]])])]

open Relation in
theorem checkFilter_gated_orders :
    orderFilter.checkFilter { config := {} } orders = .ok () ∧
      (FilterLevel.operators orderLine .string tagPattern).Gated {} ∧
      (FilterLevel.operators orders (.scalar .int) [("$gt", .ofInt 7)]).Gated {} := by
  have accepted : orderFilter.checkFilter { config := {} } orders = .ok () :=
    eq_ok_iff_isOk.mpr (by decide +kernel)
  obtain ⟨entries, same, gated⟩ := checkFilter_gated accepted
  cases same
  refine ⟨accepted, gated _ ?_, gated _ ?_⟩
  · refine .head (.junction List.mem_cons_self rfl List.mem_cons_self) ?_
    refine .head (.condition List.mem_cons_self rfl rfl rfl) ?_
    refine .head (.element List.mem_cons_self) ?_
    refine .head (.condition List.mem_cons_self rfl rfl rfl) ?_
    exact .single (.negation List.mem_cons_self rfl)
  · refine .head (.condition (List.mem_cons_of_mem _ List.mem_cons_self) rfl rfl rfl) ?_
    exact .single (.everyElement List.mem_cons_self List.mem_cons_self)

end DocTyping
