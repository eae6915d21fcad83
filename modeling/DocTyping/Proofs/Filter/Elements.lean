import DocTyping.Proofs.Filter.Fields
import DocTyping.Proofs.Filter.Locality
import DocTyping.Proofs.Path.Continuation

namespace DocTyping

/-!
# Filters on elements

A dotted path through an array and a filter on its elements ask the same of each element: the
names behind the array lead to the same field, whether the walk skips the array or starts in
the element.
-/

variable {context : FilterContext} {root element : Schema} {text rest path : String}
  {names : List String} {first inner last : Resolved} {condition : Json} {error : PathError}

theorem Arrival.Beside.asTarget (beside : inner.arrival.Beside [] last.arrival) :
    last.asTarget path = (inner.asTarget rest).renamed path := by
  obtain ⟨node, flags⟩ := beside
  obtain ⟨optional, nullable⟩ := flags rfl
  simp only [Resolved.asTarget, FilterTarget.renamed, Resolved.node, node, optional, nullable]

/-- The parts of a dotted path that resolve one after the other, in the element of the array that
the first one leads to. -/
theorem resolveText_elements {options : ResolveOptions}
    (reached : resolveText root text options = .ok first) (array : first.node = .array element)
    (named : FieldPath.parse rest = .ok (.ofNames names)) :
    (∀ last, resolveText root (text ++ "." ++ rest) options = .ok last →
      ∃ inner, resolveText element rest options = .ok inner ∧
        inner.arrival.Beside [] last.arrival) ∧
    ∀ inner, resolveText element rest options = .ok inner →
      (∃ last, resolveText root (text ++ "." ++ rest) options = .ok last ∧
        inner.arrival.Beside [] last.arrival) ∨
      ∃ path, resolveText root (text ++ "." ++ rest) options =
        .error ⟨path, .depthExceeded options.maxDepth⟩ := by
  obtain ⟨path, parsed, resolves⟩ := bind_eq_ok.mp reached
  have whole : FieldPath.parse (text ++ "." ++ rest) = .ok (path.onward (names.map .name)) :=
    (FieldPath.parse_dotted named).mpr ⟨path, parsed, rfl⟩
  have filled := FieldPath.names_ne_nil_of_parse named
  obtain ⟨inward, outward⟩ := FieldPath.resolve_elements filled resolves array
  simp only [resolveText, named, whole, ok_bind]
  refine ⟨inward, fun inner resolved => ?_⟩
  exact (outward inner resolved).imp_right fun short => ⟨_, short⟩

def elemMatchFilter (path : String) (condition : Json) : Json :=
  .object [(path, .object [("$elemMatch", condition)])]

theorem FilterTarget.operator_elemMatch {target : FilterTarget}
    (array : target.node = .array element) :
    target.operator "$elemMatch" = .ok ⟨"$elemMatch", .arrayOf .any, .elementFilter⟩ :=
  operator_eq_ok.mpr ⟨rfl, by simp [Capability.admits, array, Schema.element?]⟩

namespace Json

theorem checkFilter_unresolved (plain : Text.startsWithDollar path = false)
    (fails : resolveText root path context.config.resolveOptions = .error error) :
    (object [(path, condition)]).checkFilter context root = .error (.ofPath error) := by
  have unwrapped : extendedKind? [(path, condition)] = none :=
    extendedKind?_of_plain (by simpa using plain)
  simp [checkFilter, unwrapped, checkClauses, plain, FilterContext.target, resolveChecked, fails,
    Except.mapError]

/-- A filter on the elements of an array, which may be documents, is accepted exactly if it is
accepted for the element. -/
theorem checkCondition_elemMatch {target : FilterTarget} {filter : Json}
    (array : target.node = .array element)
    (composite : (element.isObject || element.isUnknown) = true) :
    (object [("$elemMatch", filter)]).checkCondition context root target = .ok () ↔
      filter.checkFilter context element = .ok () := by
  rw [checkCondition_operator (FilterTarget.operator_elemMatch array) (by decide)]
  change filter.checkElementFilter context root target = .ok () ↔ _
  cases filter with
  | object entries =>
      rw [checkElementFilter, FilterTarget.element_of_array array, if_pos composite]
      rfl
  | _ => simp [checkElementFilter, checkFilter, refuseFilter]

/-- On elements that are no documents, a filter consists of operators, and these are a condition on
the element. -/
theorem checkCondition_elemMatch_scalar {target : FilterTarget} {entries : List (String × Json)}
    (array : target.node = .array element)
    (scalar : (element.isObject || element.isUnknown) = false) :
    (object [("$elemMatch", .object entries)]).checkCondition context root target = .ok () ↔
      isOperatorObject entries = true ∧
        (object entries).checkCondition context root target.ofElement = .ok () := by
  rw [checkCondition_operator (FilterTarget.operator_elemMatch array) (by decide)]
  change (object entries).checkElementFilter context root target = .ok () ↔ _
  rw [checkElementFilter, FilterTarget.element_of_array array, if_neg (by simp [scalar])]
  by_cases consists : isOperatorObject entries = true
  · rw [if_pos consists, unit_bind_eq_ok, checkCondition_eq_ok_of_operators consists]
    exact (and_iff_right consists).symm
  · simp [consists]

end Json

/-- A condition on names behind an array, and the same condition in a filter on its elements: what
the dotted path accepts the filter accepts too, and what the filter accepts the dotted path
accepts or is too deep for.  Only expressions tell the two apart, since their scope is the
document around the condition. -/
theorem dotted_elemMatch
    (reached : resolveText root text context.config.resolveOptions = .ok first)
    (array : first.node = .array element)
    (composite : (element.isObject || element.isUnknown) = true)
    (named : FieldPath.parse rest = .ok (.ofNames names))
    (plain : ∀ inner, resolveText element rest context.config.resolveOptions = .ok inner →
      ¬ condition.Computes inner.node) :
    ((Json.object [(text ++ "." ++ rest, condition)]).checkFilter context root = .ok () →
      (elemMatchFilter text (.object [(rest, condition)])).checkFilter context root = .ok ()) ∧
    ((elemMatchFilter text (.object [(rest, condition)])).checkFilter context root = .ok () →
      (Json.object [(text ++ "." ++ rest, condition)]).checkFilter context root = .ok () ∨
        ∃ path, (Json.object [(text ++ "." ++ rest, condition)]).checkFilter context root =
          .error (.ofPath ⟨path, .depthExceeded context.config.maxPathDepth⟩)) := by
  have undollared : Text.startsWithDollar (text ++ "." ++ rest) = false :=
    (Text.startsWithDollar_dotted text rest).trans (undollared_of_resolveText reached rfl)
  obtain ⟨inward, outward⟩ := resolveText_elements reached array named
  rw [elemMatchFilter, Json.checkFilter_resolved reached,
    Json.checkCondition_elemMatch array composite,
    Json.checkFilter_field (FieldPath.undollared_of_parse named)]
  constructor
  · intro accepted
    obtain ⟨target, addressed, checked⟩ := (Json.checkFilter_field undollared).mp accepted
    obtain ⟨last, resolves, rfl⟩ := FilterContext.target_eq_ok.mp addressed
    obtain ⟨inner, resolved, beside⟩ := inward last resolves
    rw [beside.asTarget, Json.checkCondition_elsewhere (plain inner resolved)] at checked
    exact ⟨_, FilterContext.target_eq_ok.mpr ⟨inner, resolved, rfl⟩, checked⟩
  · intro accepted
    obtain ⟨target, addressed, checked⟩ := accepted
    obtain ⟨inner, resolved, rfl⟩ := FilterContext.target_eq_ok.mp addressed
    rcases outward inner resolved with ⟨last, resolves, beside⟩ | ⟨path, short⟩
    · refine .inl ((Json.checkFilter_resolved resolves).mpr ?_)
      rw [beside.asTarget]
      exact (Json.checkCondition_elsewhere (plain inner resolved)).mpr checked
    · exact .inr ⟨path, Json.checkFilter_unresolved undollared short⟩

def otherTags : Json := .object [("$not", .object tagPattern)]

theorem otherTags_not_computes (node : Schema) : ¬ otherTags.Computes node := by
  rw [otherTags, Json.computes_not_iff]
  exact Json.not_computes_of_names (by simp [tagPattern])

/-- Where paths take two moves at most, the tags of lines are reached in the lines only. -/
theorem dotted_elemMatch_shallow :
    (elemMatchFilter "lines" (.object [("tag", otherTags)])).checkFilter
        { config := { maxPathDepth := 2 } } orders = .ok () ∧
      ∃ path, (Json.object [("lines.tag", otherTags)]).checkFilter
        { config := { maxPathDepth := 2 } } orders = .error (.ofPath ⟨path, .depthExceeded 2⟩) := by
  have reached : resolveText orders "lines" ({ maxPathDepth := 2 } : Configuration).resolveOptions =
      .ok ⟨.ofNames ["lines"], { node := .array orderLine }, false⟩ := rfl
  have named : FieldPath.parse "tag" = .ok (.ofNames ["tag"]) := rfl
  have spelled : "lines" ++ "." ++ "tag" = "lines.tag" := rfl
  obtain ⟨_, outward⟩ := @dotted_elemMatch { config := { maxPathDepth := 2 } } _ _ _ _ _ _ otherTags
    reached rfl rfl named fun inner _ => otherTags_not_computes inner.node
  rw [spelled] at outward
  have accepted : (elemMatchFilter "lines" (.object [("tag", otherTags)])).checkFilter
      { config := { maxPathDepth := 2 } } orders = .ok () :=
    eq_ok_iff_isOk.mpr (by decide +kernel)
  refine ⟨accepted, (outward accepted).resolve_left fun deep => ?_⟩
  exact absurd (eq_ok_iff_isOk.mp deep) (by decide +kernel)

end DocTyping
