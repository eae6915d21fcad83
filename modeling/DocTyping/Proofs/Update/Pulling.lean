import DocTyping.Proofs.Filter.Elements
import DocTyping.Proofs.Update.Identity

namespace DocTyping

/-!
# Pulled elements

What `$pull` takes from an array and what `$elemMatch` finds in it are stated by the same
conditions: filters where elements are documents, and operators where they are scalars.  But
`$pull` takes an object of operators for a condition on the element wherever it stands, even on
document elements, where operators of the root are meant.
-/

variable {config : Configuration} {root element : Schema} {text name : String}
  {resolved : Resolved} {operator : UpdateOperator} {payload : Json}
  {target : UpdateTarget} {condition : FilterOperator} {entries : List (String × Json)}

theorem FieldPath.maxDepth_pos_of_resolve {path : FieldPath} {options : ResolveOptions}
    (resolves : path.resolve root options = .ok resolved) : 0 < options.maxDepth := by
  obtain ⟨filled, moves, within, goal, walks, _⟩ := FieldPath.resolve_eq_ok_iff.mp resolves
  obtain ⟨segment, rest, stated⟩ := List.exists_cons_of_ne_nil filled
  rw [stated] at walks
  cases walks with
  | stopped => omega
  | next => omega

/-- An entry that neither moves nor removes its target is accepted exactly if its payload is, where
the path resolves to a node that the operator admits. -/
theorem single_payload_eq_ok (known : UpdateOperator.named? name = some operator)
    (keeps : operator.removesField = false) (writes : operator.payload ≠ .renameTarget)
    (resolves : resolveText root text
      { config.resolveOptions with allowPlaceholders := operator.allowPlaceholders } = .ok resolved)
    (outside : resolved.path.head? ≠ some "_id")
    (admitted : operator.capability.admits resolved.node = true) :
    (Json.singleUpdate name (text, payload)).checkUpdate config root = .ok () ↔
      operator.payload.check config operator.name ⟨resolved.path, resolved.arrival⟩ payload =
        .ok () := by
  obtain ⟨path, parsed, reached⟩ := bind_eq_ok.mp resolves
  obtain ⟨_, _, _, goal, _, rfl⟩ := FieldPath.resolve_eq_ok_iff.mp reached
  have addressed : checkTarget config root operator path = .ok ⟨path, goal⟩ :=
    checkTarget_eq_ok.mpr ⟨fun identity => outside identity.1,
      resolveTarget_eq_ok.mpr ⟨_, reached, rfl⟩, admitted, by simp [keeps]⟩
  rw [single_eq_ok]
  constructor
  · intro accepted
    obtain ⟨again, same, targets, entry⟩ := accepted
    cases known.symm.trans same
    obtain ⟨other, target, parsedToo, addressedToo, checked⟩ := entryTargets_eq_ok.mp entry
    cases parsed.symm.trans parsedToo
    cases addressed.symm.trans addressedToo
    rw [if_neg writes] at checked
    exact checked.1
  · intro fits
    refine ⟨operator, known, [path], entryTargets_eq_ok.mpr ⟨path, _, parsed, addressed, ?_⟩⟩
    rw [if_neg writes]
    exact ⟨fits, rfl⟩

def UpdateOperator.removal : UpdateOperator := ⟨"$pull", .arrayOf .any, false, false, .pull⟩

theorem UpdateOperator.named?_removal : named? "$pull" = some removal := rfl

theorem pull_eq_ok (resolves : resolveText root text config.resolveOptions = .ok resolved)
    (array : resolved.node = .array element) (outside : resolved.path.head? ≠ some "_id") :
    (Json.singleUpdate "$pull" (text, payload)).checkUpdate config root = .ok () ↔
      checkPull config ⟨resolved.path, resolved.arrival⟩ payload = .ok () := by
  have admitted : UpdateOperator.removal.capability.admits resolved.node = true := by
    simp [UpdateOperator.removal, Capability.admits, array, Schema.element?]
  exact single_payload_eq_ok UpdateOperator.named?_removal rfl (by decide) resolves outside admitted

theorem UpdateTarget.element_of_array (array : target.node = .array element) :
    target.element = element := by
  rw [UpdateTarget.element, array]
  rfl

/-- Operators on an element are a condition on the field of a document that holds the element. -/
theorem checkPull_operators (consists : isOperatorObject entries = true)
    (deep : 0 < config.maxPathDepth) :
    checkPull config target (.object entries) = .ok () ↔
      (Json.object entries).checkCondition { config } (closedObject [(elementName, target.element)])
        ⟨elementName, target.element, false⟩ = .ok () := by
  have located : (closedObject [(elementName, target.element)]).asField.locate [elementName] =
      some ⟨target.element, false, false, false, 1⟩ := rfl
  have parsed : FieldPath.parse elementName = .ok (.ofNames [elementName]) := rfl
  have resolves : resolveText (closedObject [(elementName, target.element)]) elementName
      config.resolveOptions =
        .ok ⟨.ofNames [elementName], { node := target.element }, false⟩ := by
    rw [resolveText, parsed, ok_bind]
    exact (FieldPath.resolve_names_iff (List.cons_ne_nil _ _)).mpr ⟨_, located, deep, rfl⟩
  rw [checkPull, if_pos consists, within_eq_ok]
  exact @Json.checkFilter_resolved { config } _ _ _ _ resolves

/-- An object that is no extended literal is no element of an array of scalars or of arrays. -/
theorem not_admits_object {nullable : Bool} {presence : Presence}
    (unwrapped : Json.extendedKind? entries = none)
    (scalar : (element.isObject || element.isUnknown) = false) :
    element.admits (.object entries) nullable presence = false := by
  have noScalar : (Json.object entries).extended? = none := unwrapped
  cases element with
  | array inner => rfl
  | object shape => contradiction
  | scalar kind =>
      change kind.admits (.object entries) = false
      cases kind with
      | unknown => contradiction
      | _ =>
          simp [ScalarKind.admits, noScalar, Json.isString, Json.string?, Json.int64?, Json.uint64?,
            Json.number?, Json.isNumber, Json.bool?, Json.isNull]

theorem checkPull_documents (documents : target.element.isObject = true)
    (filters : isOperatorObject entries = false) (unwrapped : Json.extendedKind? entries = none) :
    checkPull config target (.object entries) =
      (Json.object entries).checkFilter { config } target.element := by
  rw [checkPull, if_neg (by simp [filters]), if_pos (by simp [unwrapped, documents])]

theorem consists_of_checkPull
    (scalar : (target.element.isObject || target.element.isUnknown) = false)
    (unwrapped : Json.extendedKind? entries = none)
    (accepted : checkPull config target (.object entries) = .ok ()) :
    isOperatorObject entries = true := by
  by_contra plain
  have documents := (Bool.or_eq_false_iff.mp scalar).1
  rw [checkPull, if_neg plain, if_neg (by simp [documents]), expectConforming_eq_ok,
    not_admits_object unwrapped scalar] at accepted
  contradiction

theorem FilterOperator.name_of_root (known : named? name = some condition)
    (rooted : name ∈ rootNames) : name = "$expr" ∨ name = "$jsonSchema" := by
  have table : ∀ operator ∈ all, operator.name ∈ rootNames →
      operator.name = "$expr" ∨ operator.name = "$jsonSchema" := by decide
  obtain ⟨listed, rfl⟩ := named?_eq_some known
  exact table condition listed rooted

/-- Operators that are accepted both as a condition and as a filter. -/
theorem names_of_condition_and_filter {context : FilterContext} {scope : Schema} {target : FilterTarget}
    (consists : isOperatorObject entries = true)
    (condition : (Json.object entries).checkCondition context scope target = .ok ())
    (filter : (Json.object entries).checkFilter context root = .ok ()) :
    ∀ entry ∈ entries, entry.1 = "$expr" ∨ entry.1 = "$jsonSchema" := by
  intro entry member
  obtain ⟨_, operators⟩ := (Json.checkCondition_eq_ok_of_operators consists).mp condition
  obtain ⟨operator, found, _⟩ := Json.checkOperators_eq_ok.mp operators entry member
  obtain ⟨_, same, _, clauses⟩ := Json.checkFilter_eq_ok.mp filter
  cases same
  have accepted := (Json.checkClauses_eq_ok.mp clauses entry member).1
    (Json.startsWithDollar_of_isOperatorObject consists member)
  exact FilterOperator.name_of_root (FilterTarget.operator_eq_ok.mp found).1
    (Json.checkRoot_known accepted)

def pullUpdate (path : String) (condition : Json) : Json :=
  Json.singleUpdate "$pull" (path, condition)

/-- `$pull` and `$elemMatch` accept the same conditions, as far as they read them alike: filters on
documents that hold more than operators, and operators on other elements that type no expression
in the document around.  Operators alone are to `$pull` a condition on the element, with nothing but
the element in the scope of expressions.  On documents they are parts of a filter to `$elemMatch`,
and besides `$expr` and `$jsonSchema` none is both. -/
theorem pull_iff_elemMatch
    (resolves : resolveText root text config.resolveOptions = .ok resolved)
    (array : resolved.node = .array element) (known : element.isUnknown = false)
    (outside : resolved.path.head? ≠ some "_id") (unwrapped : Json.extendedKind? entries = none) :
    ((element.isObject = true → isOperatorObject entries = false) →
      (element.isObject = false → ¬ (Json.object entries).Computes element) →
        ((pullUpdate text (.object entries)).checkUpdate config root = .ok () ↔
          (elemMatchFilter text (.object entries)).checkFilter { config } root = .ok ())) ∧
    (isOperatorObject entries = true →
      ((pullUpdate text (.object entries)).checkUpdate config root = .ok () ↔
        (Json.object entries).checkCondition { config } (closedObject [(elementName, element)])
          ⟨elementName, element, false⟩ = .ok ())) ∧
    (element.isObject = true → isOperatorObject entries = true →
      (pullUpdate text (.object entries)).checkUpdate config root = .ok () →
        (elemMatchFilter text (.object entries)).checkFilter { config } root = .ok () →
          ∀ entry ∈ entries, entry.1 = "$expr" ∨ entry.1 = "$jsonSchema") := by
  have deep : 0 < config.maxPathDepth := by
    obtain ⟨_, _, reached⟩ := bind_eq_ok.mp resolves
    exact FieldPath.maxDepth_pos_of_resolve reached
  have held : (UpdateTarget.mk resolved.path resolved.arrival).element = element :=
    UpdateTarget.element_of_array array
  have operators := fun consists => held ▸
    @checkPull_operators config ⟨resolved.path, resolved.arrival⟩ entries consists deep
  rw [pullUpdate, elemMatchFilter, pull_eq_ok resolves array outside,
    @Json.checkFilter_resolved { config } _ _ _ _ resolves]
  refine ⟨fun filters plain => ?_, operators, fun documents consists pulled matched => ?_⟩
  · cases documents : element.isObject with
    | true =>
        rw [Json.checkCondition_elemMatch array (by rw [documents, Bool.true_or]),
          checkPull_documents (held ▸ documents) (filters documents) unwrapped, held]
    | false =>
        have scalar : (element.isObject || element.isUnknown) = false := by simp [documents, known]
        have elements : (resolved.asTarget text).ofElement = ⟨text, element, false⟩ :=
          congrArg (FilterTarget.mk text · false) (FilterTarget.element_of_array array)
        -- Wrapped or not, the condition is on the same element, so only its scope changes.
        have elsewhere := @Json.checkCondition_elsewhere { config } root
          (closedObject [(elementName, element)]) ⟨text, element, false⟩ elementName _
          (plain documents)
        rw [Json.checkCondition_elemMatch_scalar array scalar, elements]
        constructor
        · intro pulled
          have consists := consists_of_checkPull (held ▸ scalar) unwrapped pulled
          exact ⟨consists, elsewhere.mp ((operators consists).mp pulled)⟩
        · intro matched
          exact (operators matched.1).mpr (elsewhere.mpr matched.2)
  · rw [Json.checkCondition_elemMatch array (by rw [documents, Bool.true_or])] at matched
    exact names_of_condition_and_filter consists ((operators consists).mp pulled) matched

def eitherTag : List (String × Json) :=
  [("$or", .array [.object [("tag", .string "a")], .object [("tag", .string "b")]])]

/-- High scores are pulled as they are found, and so are lines with a tag.  Lines with one of two
tags are found only. -/
theorem pull_iff_elemMatch_orders :
    (pullUpdate "scores" (.object [("$gt", .ofInt 7)])).checkUpdate {} orders = .ok () ∧
      (pullUpdate "lines" (.object [("tag", .string "a")])).checkUpdate {} orders = .ok () ∧
      (elemMatchFilter "lines" (.object eitherTag)).checkFilter { config := {} } orders = .ok () ∧
      (pullUpdate "lines" (.object eitherTag)).checkUpdate {} orders ≠ .ok () := by
  have scored : resolveText orders "scores" ({} : Configuration).resolveOptions =
      .ok ⟨.ofNames ["scores"], { node := .array (.scalar .int) }, false⟩ := rfl
  have lined : resolveText orders "lines" ({} : Configuration).resolveOptions =
      .ok ⟨.ofNames ["lines"], { node := .array orderLine }, false⟩ := rfl
  obtain ⟨alike, _⟩ := @pull_iff_elemMatch {} _ _ _ _ [("$gt", .ofInt 7)] scored rfl rfl
    (by decide) rfl
  obtain ⟨alikeToo, _⟩ := @pull_iff_elemMatch {} _ _ _ _ [("tag", .string "a")] lined rfl rfl
    (by decide) rfl
  obtain ⟨_, _, apart⟩ := @pull_iff_elemMatch {} _ _ _ _ eitherTag lined rfl rfl (by decide) rfl
  have found : (elemMatchFilter "lines" (.object eitherTag)).checkFilter { config := {} } orders =
      .ok () := eq_ok_iff_isOk.mpr (by decide +kernel)
  refine ⟨(alike nofun fun _ => ?_).mpr (eq_ok_iff_isOk.mpr (by decide +kernel)),
    (alikeToo (fun _ => rfl) nofun).mpr (eq_ok_iff_isOk.mpr (by decide +kernel)), found, ?_⟩
  · exact Json.not_computes_of_names (by simp)
  · intro pulled
    exact absurd (apart rfl rfl pulled found _ List.mem_cons_self) (by decide)

end DocTyping
