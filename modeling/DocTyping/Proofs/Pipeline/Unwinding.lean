import DocTyping.Proofs.Path.Budget
import DocTyping.Proofs.Path.Unwinding
import DocTyping.Proofs.Pipeline.Leaves
import DocTyping.Proofs.Pipeline.Stages

namespace DocTyping

/-!
# Stages that unwind

An accepted stage unwinds an array that its path leads to, and changes nothing if the
path leads to anything else.
-/

namespace Pipeline

variable {pipeline next : Pipeline} {specification : Json} {unwinding : Unwinding}
  {stage path : String} {names : List String} {slot : Slot} {schema : Schema} {found : Found}

theorem withoutArray_of_unwind (read : Unwinding.read specification = .ok unwinding)
    (plain : unwinding.index = none) (stated : unwinding.path = .ok path)
    (accepted : pipeline.unwind specification = .ok next) :
    ∃ names, fieldNames "$unwind" path = .ok names ∧
      pipeline.withoutArray path names { optional := unwinding.preserve } = .ok next.schema := by
  obtain ⟨schema, derived, rfl⟩ := reshape_eq_ok.mp accepted
  simp only [unwound, read, stated, ok_bind, bind_eq_ok] at derived
  obtain ⟨names, named, left, without, written⟩ := derived
  simp only [Unwinding.writeIndex, plain] at written
  cases written
  exact ⟨names, named, without⟩

/-- A path that leads somewhere is not refused for an undeclared field, whatever the depth. -/
theorem isUnknownField_of_locate {refusal : Refusal} (named : fieldNames stage path = .ok names)
    (located : pipeline.schema.asField.locate names = some found)
    (refused : pipeline.resolve path = .error refusal) : refusal.isUnknownField = false := by
  have steps : (FieldPath.ofNames names).segments ≠ [] := by
    simpa [FieldPath.ofNames] using fieldNames_ne_nil named
  have start : ({ node := pipeline.schema } : Arrival).field.locate names = some found := located
  have needs := (@walks_of_locate false _ _ _ start).needs
  rw [resolve_of_fieldNames named, mapError_eq_error, FieldPath.resolve_of_ne_nil steps] at refused
  obtain ⟨error, failed, rfl⟩ := refused
  by_cases within : found.moves ≤ pipeline.config.resolveOptions.maxDepth
  · rw [show (FieldPath.ofNames names).segments = names.map .name from rfl,
      needs.enough _ _ rfl within] at failed
    contradiction
  · rw [show (FieldPath.ofNames names).segments = names.map .name from rfl,
      needs.short _ _ rfl (Nat.lt_of_not_le within)] at failed
    cases failed
    rfl

theorem withoutArray_eq_ok (named : fieldNames stage path = .ok names)
    (located : pipeline.schema.asField.locate names = some found)
    (accepted : pipeline.withoutArray path names slot = .ok schema) :
    schema = if found.node.element?.isSome then Schema.unwindPath slot names pipeline.schema
      else pipeline.schema := by
  unfold withoutArray at accepted
  split at accepted
  · rename_i resolved resolves
    rw [resolve_of_fieldNames named, mapError_eq_ok,
      FieldPath.resolve_names_iff (fieldNames_ne_nil named)] at resolves
    obtain ⟨reached, again, _, rfl⟩ := resolves
    cases located.symm.trans again
    cases accepted
    rfl
  · rename_i refusal refused
    rw [isUnknownField_of_locate named located refused, Bool.false_and] at accepted
    contradiction

/-- An accepted stage without an index replaces the array that its path leads to by its elements:
the path leads to these afterwards, and every other path but its beginnings leads where it led
before, under the same flags.  A path that goes on from the array needs one move less, since it
does not skip the array level any more.  A stage whose path leads to no array changes nothing. -/
theorem unwind_rewrites (read : Unwinding.read specification = .ok unwinding)
    (plain : unwinding.index = none) (stated : unwinding.path = .ok path)
    (accepted : pipeline.unwind specification = .ok next) :
    ∃ names, fieldNames "$unwind" path = .ok names ∧ ∀ options node optional nullable,
      pipeline.schema.Reaches options names node optional nullable →
        (∀ element, node = .array element →
          (∃ optional nullable, next.schema.Reaches options names element optional nullable) ∧
          ∀ others, ¬ others <+: names → ∀ (options : ResolveOptions) node optional nullable,
            next.schema.Reaches options others node optional nullable ↔
              pipeline.schema.Reaches
                { options with maxDepth := options.maxDepth + if names <+: others then 1 else 0 }
                others node optional nullable) ∧
        (node.element? = none → next.schema = pipeline.schema) := by
  obtain ⟨names, named, without⟩ := withoutArray_of_unwind read plain stated accepted
  have filled := fieldNames_ne_nil named
  refine ⟨names, named, fun options node optional nullable reaches => ?_⟩
  obtain ⟨across, moves, located, within⟩ := (Schema.reaches_iff filled).mp reaches
  have made := withoutArray_eq_ok named located without
  constructor
  · rintro element rfl
    have unwound : next.schema = Schema.unwindPath _ names pipeline.schema := made
    rw [unwound]
    refine ⟨?_, fun others other options node optional nullable => ?_⟩
    · obtain ⟨optional, nullable, reached⟩ := Schema.locate_unwindPath _ filled located rfl
      exact ⟨optional, nullable, (Schema.reaches_iff filled).mpr ⟨across, moves, reached, within⟩⟩
    · exact Schema.reaches_unwindPath_iff _ filled located rfl other
  · intro single
    rw [made, single]
    rfl

def seats : Schema :=
  .array (.object ⟨[⟨"number", .number, false, false⟩, ⟨"taken", .bool, true, false⟩], none⟩)

def theatre : Pipeline :=
  { schema := .object ⟨[⟨"halls", .array (.object ⟨[⟨"rows", .array seats, true, false⟩,
      ⟨"name", .string, false, true⟩], none⟩), false, false⟩], none⟩ }

theorem unwind_rewrites_theatre :
    (∃ next, theatre.unwind (.object [("path", .string "$halls.rows"),
        ("preserveNullAndEmptyArrays", .bool true)]) = .ok next ∧
      (∃ optional nullable, next.schema.Reaches {} ["halls", "rows"] seats optional nullable) ∧
      next.schema.Reaches { maxDepth := 5 } ["halls", "rows", "taken"] .bool true false ∧
      next.schema.Reaches {} ["halls", "name"] .string false true) ∧
    ∃ next, theatre.unwind (.string "$halls.name") = .ok next ∧ next.schema = theatre.schema := by
  constructor
  · obtain ⟨next, accepted⟩ : ∃ next, theatre.unwind (.object [("path", .string "$halls.rows"),
        ("preserveNullAndEmptyArrays", .bool true)]) = .ok next :=
      isOk_iff_exists.mp (by decide +kernel)
    obtain ⟨names, named, rewritten⟩ := unwind_rewrites rfl rfl rfl accepted
    cases named
    have rows : theatre.schema.Reaches {} ["halls", "rows"] (.array seats) true false :=
      ⟨_, rfl, rfl, rfl, rfl⟩
    obtain ⟨elements, others⟩ := (rewritten _ _ _ _ rows).1 seats rfl
    have taken : theatre.schema.Reaches { maxDepth := 6 } ["halls", "rows", "taken"] .bool true
      false := ⟨_, rfl, rfl, rfl, rfl⟩
    have name : theatre.schema.Reaches {} ["halls", "name"] .string false true :=
      ⟨_, rfl, rfl, rfl, rfl⟩
    exact ⟨next, accepted, elements,
      (others ["halls", "rows", "taken"] (by decide) { maxDepth := 5 } _ _ _).mpr taken,
      (others ["halls", "name"] (by decide) {} _ _ _).mpr name⟩
  · obtain ⟨next, accepted⟩ : ∃ next, theatre.unwind (.string "$halls.name") = .ok next :=
      isOk_iff_exists.mp (by decide +kernel)
    obtain ⟨names, named, rewritten⟩ := unwind_rewrites rfl rfl rfl accepted
    cases named
    have name : theatre.schema.Reaches {} ["halls", "name"] .string false true :=
      ⟨_, rfl, rfl, rfl, rfl⟩
    exact ⟨next, accepted, (rewritten _ _ _ _ name).2 rfl⟩

end Pipeline

end DocTyping
