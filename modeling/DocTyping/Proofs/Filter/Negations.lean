import DocTyping.Proofs.Filter.Fields

namespace DocTyping

/-!
# Arguments of negations

`$not` takes a pattern or operators.  A value that is neither is not refused for its form:
it is compared with the field like an argument of `$eq`.
-/

variable {context : FilterContext} {root : Schema} {target : FilterTarget} {argument : Json}

open Relation in
theorem FilterLevel.Accepted.nested {level inner : FilterLevel} (accepted : level.Accepted context)
    (nested : ReflTransGen (Holds context.config) level inner) : inner.Accepted context := by
  induction nested with
  | refl => exact accepted
  | tail _ held ih => exact ih.below held

namespace Json

theorem checkNegation_literal (plain : argument.isLiteralNegation = true) :
    argument.checkNegation context root target = .ok () ↔ target.fits false argument = true := by
  rw [← FilterTarget.checkLiteral_eq_ok]
  constructor
  · intro accepted
    rcases checkNegation_accepted accepted with
      ⟨pattern, _⟩ | ⟨_, fits⟩ | ⟨entries, rfl, consists, _⟩
    · cases argument with
      | object entries => simp [isLiteralNegation, pattern] at plain
      | _ => contradiction
    · exact fits
    · simp [isLiteralNegation, consists] at plain
  · exact checkNegation_of_literal plain

theorem checkCondition_not_iff_eq (plain : argument.isLiteralNegation = true) :
    (object [("$not", argument)]).checkCondition context root target = .ok () ↔
      (object [("$eq", argument)]).checkCondition context root target = .ok () := by
  have negates : target.operator "$not" = .ok ⟨"$not", .any, .negation⟩ := rfl
  have equals : target.operator "$eq" = .ok ⟨"$eq", .any, .fieldValue⟩ := rfl
  rw [checkCondition_operator negates (by decide), checkCondition_operator equals (by decide)]
  exact (checkNegation_literal plain).trans FilterTarget.checkLiteral_eq_ok.symm

end Json

open Relation in
/-- An argument of `$not` on any level of an accepted filter is a pattern on texts or an object of
operators, or else a literal that fits the node.  Literals fit there exactly as `$eq` takes
them. -/
theorem checkFilter_negations :
    (∀ root entries, (Json.object entries).checkFilter context root = .ok () →
      ∀ inner node operators argument,
        ReflTransGen (FilterLevel.Holds context.config) (.clauses root entries)
          (.operators inner node operators) →
        ("$not", argument) ∈ operators →
          (argument.isRegex = true ∧ node.admitsPattern = true) ∨
          (∃ negated, argument = .object negated ∧ isOperatorObject negated = true) ∨
          (argument.isLiteralNegation = true ∧
            ∃ target : FilterTarget, target.node = node ∧ target.fits false argument = true)) ∧
    ∀ root target argument, argument.isLiteralNegation = true →
      ((Json.object [("$not", argument)]).checkCondition context root target = .ok () ↔
        (Json.object [("$eq", argument)]).checkCondition context root target = .ok ()) := by
  refine ⟨?_, fun root target argument => Json.checkCondition_not_iff_eq⟩
  intro root entries accepted inner node operators argument nested stated
  obtain ⟨_, same, _, clauses⟩ := Json.checkFilter_eq_ok.mp accepted
  cases same
  have level : (FilterLevel.clauses root entries).Accepted context := clauses
  obtain ⟨target, rfl, _, checked⟩ := level.nested nested
  obtain ⟨operator, found, negation⟩ := Json.checkOperators_of_mem checked stated
  obtain ⟨known, _⟩ := FilterTarget.operator_eq_ok.mp found
  cases known
  rcases Json.checkNegation_accepted negation with
    ⟨pattern, fits⟩ | ⟨plain, fits⟩ | ⟨negated, rfl, consists, _⟩
  · exact .inl ⟨pattern, FilterTarget.checkPatternNegation_eq_ok.mp fits⟩
  · exact .inr (.inr ⟨plain, target, rfl, FilterTarget.checkLiteral_eq_ok.mp fits⟩)
  · exact .inr (.inl ⟨negated, rfl, consists⟩)

/-- Orders with a line whose tag is not a given one, stated as a negated literal. -/
def untaggedOrders : List (String × Json) :=
  [("lines", .object [("$elemMatch", .object [("tag", .object [("$not", .string "b")])])])]

open Relation in
/-- A tag may be negated as it stands, which neither is a pattern nor applies an operator. -/
theorem checkFilter_negations_literal :
    (Json.object untaggedOrders).checkFilter { config := {} } orders = .ok () ∧
      (∃ target : FilterTarget, target.node = .string ∧
        target.fits false (.string "b") = true) ∧
      (Json.object [("$not", .ofInt 7)]).checkCondition { config := {} } orders
        ⟨"scores", .array (.scalar .int), false⟩ = .ok () := by
  have accepted : (Json.object untaggedOrders).checkFilter { config := {} } orders = .ok () :=
    eq_ok_iff_isOk.mpr (by decide +kernel)
  obtain ⟨formed, literal⟩ := @checkFilter_negations { config := {} }
  have nested : ReflTransGen (FilterLevel.Holds {}) (.clauses orders untaggedOrders)
      (.operators orderLine .string [("$not", .string "b")]) := by
    refine .head (.condition List.mem_cons_self rfl rfl rfl) ?_
    refine .head (.element List.mem_cons_self) ?_
    refine .head (.condition List.mem_cons_self rfl rfl rfl) ?_
    exact .refl
  refine ⟨accepted, ?_, (literal _ _ _ rfl).mpr (eq_ok_iff_isOk.mpr (by decide +kernel))⟩
  rcases formed _ _ accepted _ _ _ _ nested List.mem_cons_self with
    ⟨pattern, _⟩ | ⟨_, same, _⟩ | ⟨_, fits⟩
  · exact absurd pattern (by decide)
  · cases same
  · exact fits

end DocTyping
