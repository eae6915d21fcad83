import DocTyping.Proofs.Expression.Data
import DocTyping.Proofs.Filter.Passing
import DocTyping.Proofs.Path.Grammar

namespace DocTyping

/-!
# Filters on one field

A filter with a single path among its keys passes on what it asks of the field there:
the condition stands for the whole filter.  So does an operator that is the only one in
a condition.
-/

variable {context : FilterContext} {root : Schema} {path name : String} {resolved : Resolved}
  {target : FilterTarget} {operator : FilterOperator} {condition argument : Json}

/-- A path that resolves without placeholders does not start with a dollar sign. -/
theorem undollared_of_resolveText {options : ResolveOptions}
    (resolves : resolveText root path options = .ok resolved)
    (refused : options.allowPlaceholders = false) : Text.startsWithDollar path = false := by
  by_contra dollar
  obtain ⟨steps, parsed, reached⟩ := bind_eq_ok.mp resolves
  obtain ⟨form, rest, same⟩ :=
    FieldPath.exists_placeholder_of_dollar parsed (Bool.not_eq_false _ ▸ dollar)
  obtain ⟨_, _, _, goal, walks, _⟩ := FieldPath.resolve_eq_ok_iff.mp reached
  rw [same, refused] at walks
  cases walks with
  | stopped _ plain => contradiction
  | next first _ =>
      cases first with
      | placeholder allowed _ => contradiction
      | field spelled _ _ => contradiction

def Resolved.asTarget (resolved : Resolved) (path : String) : FilterTarget :=
  ⟨path, resolved.node, resolved.arrival.optional || resolved.arrival.nullable⟩

theorem FilterContext.target_eq_ok :
    context.target root path = .ok target ↔
      ∃ resolved, resolveText root path context.config.resolveOptions = .ok resolved ∧
        resolved.asTarget path = target := by
  simp only [FilterContext.target, bind_eq_ok, resolveChecked_eq_ok, pure_eq_ok]
  rfl

namespace Json

theorem checkFilter_field (plain : Text.startsWithDollar path = false) :
    (object [(path, condition)]).checkFilter context root = .ok () ↔
      ∃ target, context.target root path = .ok target ∧
        condition.checkCondition context root target = .ok () := by
  have unwrapped : extendedKind? [(path, condition)] = none :=
    extendedKind?_of_plain (by simpa using plain)
  simp [checkFilter_eq_ok, unwrapped, checkClauses_eq_ok, ClauseAccepted, plain]

/-- A filter on a field that resolves is accepted exactly if its condition is. -/
theorem checkFilter_resolved
    (resolves : resolveText root path context.config.resolveOptions = .ok resolved) :
    (object [(path, condition)]).checkFilter context root = .ok () ↔
      condition.checkCondition context root (resolved.asTarget path) = .ok () := by
  rw [checkFilter_field (undollared_of_resolveText resolves rfl)]
  constructor
  · intro accepted
    obtain ⟨target, addressed, checked⟩ := accepted
    obtain ⟨again, resolvesToo, rfl⟩ := FilterContext.target_eq_ok.mp addressed
    cases resolves.symm.trans resolvesToo
    exact checked
  · intro checked
    exact ⟨_, FilterContext.target_eq_ok.mpr ⟨resolved, resolves, rfl⟩, checked⟩

theorem checkCondition_eq_ok_of_operators {entries : List (String × Json)}
    (consists : isOperatorObject entries = true) :
    (object entries).checkCondition context root target = .ok () ↔
      target.checkSiblings entries = .ok () ∧
        checkOperators context root target entries = .ok () := by
  rw [checkCondition, if_pos consists]
  exact unit_bind_eq_ok

/-- A condition of one operator is accepted exactly if the operator is, with its argument. -/
theorem checkCondition_operator (known : target.operator name = .ok operator)
    (other : name ≠ "$options") :
    (object [(name, argument)]).checkCondition context root target = .ok () ↔
      checkOperator context root target operator name argument = .ok () := by
  have consists : isOperatorObject [(name, argument)] = true :=
    FilterOperator.isOperatorObject_single (FilterTarget.operator_eq_ok.mp known).1
  have siblings : target.checkSiblings [(name, argument)] = .ok () :=
    FilterTarget.checkSiblings_eq_ok.mpr (by simp [Keyed.has, other])
  rw [checkCondition_eq_ok_of_operators consists, checkOperators_eq_ok]
  simp [siblings, known]

end Json

end DocTyping
