import DocTyping.Proofs.Filter.Fields

namespace DocTyping

/-!
# Spellings of equality

A field is compared with a value by the value as it stands, by `$eq` and `$ne`, and by the
lists of `$in` and `$nin`.  All of them ask the same of the value, except that `$eq` takes
no pattern.
-/

variable {context : FilterContext} {root : Schema} {target : FilterTarget} {resolved : Resolved}
  {path : String} {value : Json}

/-- A value with which a field may be compared: one that it may hold, one of its elements, or a
pattern for its texts.  Null stands for a field that may be absent, too. -/
def Resolved.ComparesTo (resolved : Resolved) (value : Json) : Prop :=
  resolved.node.admits value (resolved.arrival.optional || resolved.arrival.nullable) .full = true ∨
    (∃ element, resolved.node = .array element ∧ element.admits value false .full = true) ∨
      (value.isRegex = true ∧ resolved.node.admitsPattern = true)

theorem Schema.any_element_iff {schema : Schema} {test : Schema → Bool} :
    schema.element?.any test = true ↔ ∃ element, schema = .array element ∧ test element = true := by
  cases schema with
  | array element => simp [element?]
  | _ => simp [element?]

theorem Resolved.fits_iff (path : String) :
    (resolved.asTarget path).fits true value = true ↔ resolved.ComparesTo value := by
  simp only [FilterTarget.fits, Bool.or_eq_true, Schema.any_element_iff, Bool.and_eq_true,
    true_and, or_assoc, ComparesTo, asTarget]

namespace FilterTarget

theorem fits_of_not_isRegex (noPattern : value.isRegex = false) :
    target.fits false value = target.fits true value := by
  simp [fits, noPattern]

end FilterTarget

namespace Json

theorem isLiteralCondition_of_object
    (literal : ∀ entries, value = object entries → hasOperatorKey entries = true →
      (extendedKind? entries).isSome = true) : value.isLiteralCondition = true := by
  cases value with
  | object entries =>
      have wrapped := literal entries rfl
      cases kind : extendedKind? entries with
      | some kind => simp [isLiteralCondition, isOperatorObject, kind]
      | none =>
          have unmarked : hasOperatorKey entries = false := by
            by_contra marked
            simp [kind, Bool.not_eq_false _ ▸ marked] at wrapped
          have notOperators : isOperatorObject entries = false := by
            cases entries with
            | nil => rfl
            | cons entry rest =>
                simp only [hasOperatorKey, List.any_cons, Bool.or_eq_false_iff] at unmarked
                simp [isOperatorObject, unmarked.1]
          simp [isLiteralCondition, notOperators, unmarked]
  | _ => rfl

theorem checkCondition_literal (literal : value.isLiteralCondition = true) :
    value.checkCondition context root target = .ok () ↔ target.fits true value = true := by
  rw [← FilterTarget.checkLiteral_eq_ok]
  constructor
  · intro accepted
    rcases isLiteralCondition_of_checkCondition accepted with
      ⟨_, fits⟩ | ⟨entries, rfl, consists, _⟩
    · exact fits
    · simp [isLiteralCondition, consists, extendedKind?_of_isOperatorObject consists] at literal
  · exact checkCondition_of_literal literal

end Json

/-- The conditions that compare a field with a value or a pattern. -/
def equalitySpellings (value : Json) : List Json :=
  [value, .object [("$in", .array [value])], .object [("$nin", .array [value])],
    .object [("$ne", value)]]

/-- A literal may be compared with a field in all spellings or in none, by what the type of the
field says; `$eq` agrees with them wherever the literal is no pattern. -/
theorem equality_spellings
    (resolves : resolveText root path context.config.resolveOptions = .ok resolved)
    (literal : ∀ entries, value = .object entries → hasOperatorKey entries = true →
      (Json.extendedKind? entries).isSome = true) :
    (∀ spelling ∈ equalitySpellings value,
      (Json.object [(path, spelling)]).checkFilter context root = .ok () ↔
        resolved.ComparesTo value) ∧
    (value.isRegex = false →
      ((Json.object [(path, .object [("$eq", value)])]).checkFilter context root = .ok () ↔
        resolved.ComparesTo value)) := by
  simp only [Json.checkFilter_resolved resolves, ← resolved.fits_iff path]
  generalize resolved.asTarget path = target
  have listed : target.checkLiterals [value] = .ok () ↔ target.fits true value = true := by
    simp [FilterTarget.checkLiterals_eq_ok]
  have inList : target.operator "$in" = .ok ⟨"$in", .any, .fieldValues⟩ := rfl
  have notInList : target.operator "$nin" = .ok ⟨"$nin", .any, .fieldValues⟩ := rfl
  have differs : target.operator "$ne" = .ok ⟨"$ne", .any, .fieldValueOrPattern⟩ := rfl
  have equals : target.operator "$eq" = .ok ⟨"$eq", .any, .fieldValue⟩ := rfl
  constructor
  · simp only [equalitySpellings, List.forall_mem_cons, List.not_mem_nil, false_implies,
      implies_true, and_true]
    refine ⟨Json.checkCondition_literal (Json.isLiteralCondition_of_object literal), ?_, ?_, ?_⟩
    · rw [Json.checkCondition_operator inList (by decide)]
      exact listed
    · rw [Json.checkCondition_operator notInList (by decide)]
      exact listed
    · rw [Json.checkCondition_operator differs (by decide)]
      exact FilterTarget.checkLiteral_eq_ok
  · intro noPattern
    rw [Json.checkCondition_operator equals (by decide),
      ← FilterTarget.fits_of_not_isRegex noPattern]
    exact FilterTarget.checkLiteral_eq_ok

def taggedItems : Schema := .object ⟨[⟨"tags", .array .string, true, false⟩], none⟩

def itemTags : Resolved :=
  ⟨.ofNames ["tags"], { node := .array .string, optional := true }, false⟩

/-- Tags are compared with a tag as well as with a list of tags. -/
theorem equality_spellings_tags :
    (∀ spelling ∈ equalitySpellings (.string "red"),
      (Json.object [("tags", spelling)]).checkFilter { config := {} } taggedItems = .ok ()) ∧
    (Json.object [("tags", .object [("$eq", .string "red")])]).checkFilter { config := {} }
      taggedItems = .ok () := by
  have resolves : resolveText taggedItems "tags" ({} : Configuration).resolveOptions =
      .ok itemTags := rfl
  have compares : itemTags.ComparesTo (.string "red") := .inr (.inl ⟨.string, rfl, rfl⟩)
  obtain ⟨spelled, equals⟩ :=
    @equality_spellings { config := {} } taggedItems itemTags "tags" (.string "red") resolves nofun
  exact ⟨fun spelling member => (spelled spelling member).mpr compares,
    (equals rfl).mpr compares⟩

end DocTyping
