import DocTyping.Proofs.Filter.Passing
import DocTyping.Proofs.Reordering.Expressions
import DocTyping.Proofs.Reordering.Operands

namespace DocTyping

/-!
# Filters up to the order of keys

The rules of filters look at the entries of an object each for itself, so what
passes still passes with its keys in another order.
-/

/-- No schema that a part of a filter is checked against declares a name twice. -/
def FilterPart.NamesDistinct : FilterPart → Prop
  | .filter root => root.NamesDistinct
  | .argument root _ => root.NamesDistinct
  | .condition root target => root.NamesDistinct ∧ target.node.NamesDistinct
  | .operators root target => root.NamesDistinct ∧ target.node.NamesDistinct
  | .operand root target _ => root.NamesDistinct ∧ target.node.NamesDistinct
  | .item root target => root.NamesDistinct ∧ target.node.NamesDistinct
  | .element root target => root.NamesDistinct ∧ target.node.NamesDistinct
  | .negation root target => root.NamesDistinct ∧ target.node.NamesDistinct

namespace FilterTarget

variable {context : FilterContext} {root : Schema} {target : FilterTarget} {path : String}

theorem namesDistinct (distinct : root.NamesDistinct)
    (resolves : context.target root path = .ok target) : target.node.NamesDistinct := by
  obtain ⟨resolved, found, made⟩ := bind_eq_ok.mp resolves
  cases made
  obtain ⟨parsed, _, reached⟩ := bind_eq_ok.mp (resolveChecked_eq_ok.mp found)
  obtain ⟨_, _, _, goal, walks, rfl⟩ := FieldPath.resolve_eq_ok_iff.mp reached
  exact walks.namesDistinct distinct

theorem element_namesDistinct (distinct : target.node.NamesDistinct) :
    target.element.NamesDistinct :=
  element?_getD_namesDistinct distinct (.scalar _)

end FilterTarget

namespace Json

variable {context : FilterContext} {root : Schema} {value other : Json} {part : FilterPart}

theorem Reorders.isLiteralCondition_eq (alike : value.Reorders other) :
    value.isLiteralCondition = other.isLiteralCondition := by
  cases alike with
  | object names values =>
      have alike : Keyed.Alike Reorders _ _ := ⟨names, values⟩
      simp only [isLiteralCondition, isOperatorObject_eq alike, extendedKind?_eq alike,
        hasOperatorKey_eq alike]
  | _ => rfl

theorem Reorders.isLiteralNegation_eq (alike : value.Reorders other) :
    value.isLiteralNegation = other.isLiteralNegation := by
  cases alike with
  | object names values =>
      have whole := Reorders.object names values
      simp only [isLiteralNegation, whole.isRegex_eq, isOperatorObject_eq ⟨names, values⟩]
  | _ => rfl

theorem exists_elementFilter {argument : Json} (alike : value.Reorders other)
    (stated : value.elementFilter? = some argument) :
    (value.KeysDistinct → argument.KeysDistinct) ∧
      ∃ counterpart, other.elementFilter? = some counterpart ∧ argument.Reorders counterpart := by
  unfold elementFilter? at stated
  split at stated
  · split at stated
    · rename_i key inner named
      cases stated
      obtain ⟨counterpart, rfl, inside⟩ := alike.exists_single
      exact ⟨application_keysDistinct, counterpart, by simp [elementFilter?, named], inside⟩
    · contradiction
  · contradiction

theorem elementFilter?_eq_none (alike : value.Reorders other)
    (plain : value.elementFilter? = none) : other.elementFilter? = none := by
  cases stated : other.elementFilter? with
  | none => rfl
  | some argument =>
      obtain ⟨_, counterpart, held, _⟩ := exists_elementFilter alike.symm stated
      rw [plain] at held
      contradiction

theorem scope_alike (bindings : ∀ entry ∈ context.bindings, entry.2.NamesDistinct)
    (distinct : root.NamesDistinct) : (context.scope root).Alike (context.scope root) :=
  .refl ⟨distinct, bindings⟩

theorem Passes.reorder (passes : Passes context part value) (alike : value.Reorders other)
    (bindings : ∀ entry ∈ context.bindings, entry.2.NamesDistinct) (distinct : part.NamesDistinct)
    (keys : value.KeysDistinct) : Passes context part other := by
  induction passes generalizing other with
  | @filter root entries unwrapped _ addressed _ operators fields =>
      obtain ⟨others, rfl, inside⟩ := alike.exists_object
      have apart := (keysDistinct_object_iff.mp keys).2
      rw [extendedKind?_eq inside] at unwrapped
      refine .filter unwrapped ?_ ?_ ?_
      · intro held member marked
        obtain ⟨entry, stated, same, below⟩ := inside.exists_of_mem member
        rw [← same] at marked ⊢
        exact operators entry stated marked below distinct (apart entry stated)
      · exact inside.forall_names
          (fun name => Text.startsWithDollar name = false →
            ∃ target, context.target root name = .ok target) addressed
      · intro held member field target resolves
        obtain ⟨entry, stated, same, below⟩ := inside.exists_of_mem member
        rw [← same] at field resolves
        have inner := FilterTarget.namesDistinct distinct resolves
        exact fields entry stated field target resolves below ⟨distinct, inner⟩ (apart entry stated)
  | junction joins some _ each =>
      obtain ⟨permuted, rfl, inside⟩ := alike.exists_array
      have apart := keysDistinct_array_iff.mp keys
      refine .junction joins ?_ fun held member => ?_
      · intro none
        rw [none] at inside
        cases inside
        exact some rfl
      · obtain ⟨filter, stated, below⟩ := exists_of_mem_right inside member
        exact each filter stated below distinct (apart filter stated)
  | expression typed =>
      obtain ⟨reached, typed, _⟩ := alike.infer (scope_alike bindings distinct) keys typed
      exact .expression typed
  | plainArgument known single plain fits =>
      exact .plainArgument known single plain (checkRootArgument_reorders alike fits)
  | literal plain fits =>
      rw [alike.isLiteralCondition_eq] at plain
      exact .literal plain (FilterTarget.checkLiteral_reorders alike fits)
  | condition _ inside => exact .condition (inside alike distinct keys)
  | operators consists siblings _ each =>
      obtain ⟨others, rfl, inside⟩ := alike.exists_object
      have apart := (keysDistinct_object_iff.mp keys).2
      rw [isOperatorObject_eq inside] at consists
      rw [FilterTarget.checkSiblings_reorders inside] at siblings
      refine .operators consists siblings fun held member => ?_
      obtain ⟨entry, stated, same, below⟩ := inside.exists_of_mem member
      rw [← same]
      exact each entry stated below distinct (apart entry stated)
  | plainOperand known plain fits =>
      exact .plainOperand known plain (FilterArgument.check_reorders _ alike fits)
  | computed known form typed =>
      obtain ⟨reached, typed, _⟩ := alike.infer (scope_alike bindings distinct.1) keys typed
      exact .computed known form typed
  | items known form _ each =>
      obtain ⟨permuted, rfl, inside⟩ := alike.exists_array
      have apart := keysDistinct_array_iff.mp keys
      refine .items known form fun held member => ?_
      obtain ⟨item, stated, below⟩ := exists_of_mem_right inside member
      exact each item stated below distinct (apart item stated)
  | element known form _ inside => exact .element known form (inside alike distinct keys)
  | negation known form _ inside => exact .negation known form (inside alike distinct keys)
  | heldItem plain fits =>
      exact .heldItem (elementFilter?_eq_none alike plain)
        (FilterTarget.checkElement_reorders alike fits)
  | matchedItem stated _ inside =>
      obtain ⟨apart, counterpart, held, below⟩ := exists_elementFilter alike stated
      exact .matchedItem held (inside below distinct (apart keys))
  | documentElement composite _ inside =>
      exact .documentElement composite
        (inside alike (FilterTarget.element_namesDistinct distinct.2) keys)
  | scalarElement scalar _ inside =>
      have below := FilterTarget.element_namesDistinct distinct.2
      exact .scalarElement scalar (inside alike ⟨distinct.1, below⟩ keys)
  | negatedPattern pattern fits =>
      rw [alike.isRegex_eq] at pattern
      exact .negatedPattern pattern fits
  | negatedOperators _ inside => exact .negatedOperators (inside alike distinct keys)
  | negatedLiteral plain fits =>
      rw [alike.isLiteralNegation_eq] at plain
      exact .negatedLiteral plain (FilterTarget.checkLiteral_reorders alike fits)

theorem Reorders.checkFilter (alike : value.Reorders other)
    (bindings : ∀ entry ∈ context.bindings, entry.2.NamesDistinct) (distinct : root.NamesDistinct)
    (keys : value.KeysDistinct) (accepted : value.checkFilter context root = .ok ()) :
    other.checkFilter context root = .ok () :=
  checkFilter_iff_passes.mpr
    ((checkFilter_iff_passes.mp accepted).reorder alike bindings distinct keys)

end Json

end DocTyping
