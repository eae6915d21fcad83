import DocTyping.Proofs.Filter.Passing
import DocTyping.Proofs.Relaxation.Paths
import DocTyping.Proofs.Update.Entries

namespace DocTyping

/-!
# Checks under relaxed configurations

What is accepted under a configuration is accepted under a more permissive one:
expressions with the same type, filters, and updates.
-/

namespace Configuration

/-- A configuration that allows whatever another one does. -/
structure Relaxes (config relaxed : Configuration) : Prop where
  depth : config.maxPathDepth ≤ relaxed.maxPathDepth
  unwind : config.lenientUnwind = true → relaxed.lenientUnwind = true
  unset : config.allowUnsetRequired = true → relaxed.allowUnsetRequired = true

variable {config relaxed : Configuration}

theorem Relaxes.deepens (relaxes : config.Relaxes relaxed) :
    config.resolveOptions.Deepens relaxed.resolveOptions :=
  ⟨relaxes.depth, rfl, rfl⟩

end Configuration

namespace Scope

variable {scope : Scope} {deeper : ResolveOptions} {type : Schema}

def resolving (scope : Scope) (options : ResolveOptions) : Scope := { scope with options }

theorem select_grants {rest : Option String} (deepens : scope.options.Deepens deeper) :
    Grants (scope.select type rest) ((scope.resolving deeper).select type rest) := by
  cases rest with
  | none => exact .refl _
  | some path => exact (resolveChecked_grants deepens).head

theorem variableType_grants {reference : List Char} (deepens : scope.options.Deepens deeper) :
    Grants (scope.variableType reference) ((scope.resolving deeper).variableType reference) := by
  unfold variableType
  dsimp only [resolving]
  split
  · exact select_grants deepens
  · split
    · exact select_grants deepens
    · exact select_grants deepens
    all_goals exact .refl _

theorem textType_grants {text : String} (deepens : scope.options.Deepens deeper) :
    Grants (scope.textType text) ((scope.resolving deeper).textType text) := by
  unfold textType
  split
  · exact variableType_grants deepens
  · exact select_grants deepens
  · exact .refl _

theorem preserves_resolving :
    Preserves fun scope other =>
      ∃ deeper, scope.options.Deepens deeper ∧ other = scope.resolving deeper where
  texts relates accepted := by
    obtain ⟨deeper, deepens, rfl⟩ := relates
    exact textType_grants deepens _ accepted
  binds bindings relates := by
    obtain ⟨deeper, deepens, rfl⟩ := relates
    exact ⟨deeper, deepens, rfl⟩

end Scope

namespace Json

variable {config relaxed : Configuration} {root : Schema} {bindings : Bindings} {value : Json}

theorem infer_grants (relaxes : config.Relaxes relaxed) :
    Grants (value.infer (.ofRoot root config bindings))
      (value.infer (.ofRoot root relaxed bindings)) := by
  intro type accepted
  have deepens : (Scope.ofRoot root config bindings).options.Deepens
      (Scope.ofRoot root relaxed bindings).options :=
    ⟨relaxes.depth, rfl, rfl⟩
  exact infer_of_hasType
    ((hasType_of_infer accepted).transfer Scope.preserves_resolving ⟨_, deepens, rfl⟩)

theorem target_grants {path : String} (relaxes : config.Relaxes relaxed) :
    Grants (FilterContext.target { config, bindings } root path)
      (FilterContext.target { config := relaxed, bindings } root path) :=
  (resolveChecked_grants relaxes.deepens).head

theorem Passes.relax {part : FilterPart} (passes : Passes { config, bindings } part value)
    (relaxes : config.Relaxes relaxed) : Passes { config := relaxed, bindings } part value := by
  induction passes with
  | filter unwrapped _ addressed _ operators fields =>
      refine .filter unwrapped operators ?_ ?_
      · intro entry member field
        obtain ⟨target, resolves⟩ := addressed entry member field
        exact ⟨target, target_grants relaxes target resolves⟩
      · intro entry member field target resolves
        obtain ⟨known, before⟩ := addressed entry member field
        cases (target_grants relaxes known before).symm.trans resolves
        exact fields entry member field target before
  | junction joins some _ each => exact .junction joins some each
  | expression typed => exact .expression (infer_grants relaxes _ typed)
  | plainArgument known single plain fits => exact .plainArgument known single plain fits
  | literal plain fits => exact .literal plain fits
  | condition _ inside => exact .condition inside
  | operators consists siblings _ each => exact .operators consists siblings each
  | plainOperand known plain fits => exact .plainOperand known plain fits
  | computed known form typed => exact .computed known form (infer_grants relaxes _ typed)
  | items known form _ each => exact .items known form each
  | element known form _ inside => exact .element known form inside
  | negation known form _ inside => exact .negation known form inside
  | heldItem plain fits => exact .heldItem plain fits
  | matchedItem stated _ inside => exact .matchedItem stated inside
  | documentElement composite _ inside => exact .documentElement composite inside
  | scalarElement scalar _ inside => exact .scalarElement scalar inside
  | negatedPattern pattern fits => exact .negatedPattern pattern fits
  | negatedOperators _ inside => exact .negatedOperators inside
  | negatedLiteral plain fits => exact .negatedLiteral plain fits

theorem checkFilter_grants (relaxes : config.Relaxes relaxed) :
    Grants (value.checkFilter { config, bindings } root)
      (value.checkFilter { config := relaxed, bindings } root) := by
  intro _ accepted
  exact checkFilter_iff_passes.mpr ((checkFilter_iff_passes.mp accepted).relax relaxes)

end Json

section Updates

variable {config relaxed : Configuration} {root element : Schema} {operator : UpdateOperator}
  {path : FieldPath} {target source : UpdateTarget} {payload : Json} {name : String}
  {entries modifiers : List (String × Json)} {allowed : List String}

theorem resolveTarget_grants {options deeper : ResolveOptions} (deepens : options.Deepens deeper) :
    Grants (resolveTarget root path options) (resolveTarget root path deeper) :=
  (FieldPath.resolve_grants deepens).mapError.head

theorem checkTarget_grants (relaxes : config.Relaxes relaxed) :
    Grants (checkTarget config root operator path) (checkTarget relaxed root operator path) := by
  intro target accepted
  obtain ⟨writable, resolves, admitted, removable⟩ := checkTarget_eq_ok.mp accepted
  have deepens : ResolveOptions.Deepens
      { config.resolveOptions with allowPlaceholders := operator.allowPlaceholders }
      { relaxed.resolveOptions with allowPlaceholders := operator.allowPlaceholders } :=
    ⟨relaxes.depth, rfl, rfl⟩
  refine checkTarget_eq_ok.mpr
    ⟨writable, resolveTarget_grants deepens target resolves, admitted, ?_⟩
  intro removes
  exact (removable removes).imp_right relaxes.unset

theorem checkRename_grants (relaxes : config.Relaxes relaxed) :
    Grants (checkRename config root source payload) (checkRename relaxed root source payload) := by
  intro destination accepted
  obtain ⟨text, stated, outside, parsed, apart, target, resolves, same, inside⟩ :=
    checkRename_eq_ok.mp accepted
  exact checkRename_eq_ok.mpr ⟨text, stated, outside, parsed, apart, target,
    resolveTarget_grants relaxes.deepens target resolves, same, inside⟩

theorem checkPushSort_grants (relaxes : config.Relaxes relaxed) :
    Grants (checkPushSort config element payload) (checkPushSort relaxed element payload) := by
  unfold checkPushSort
  refine .ite (fun _ => .refl _) fun _ => ?_
  split
  · refine .ite (fun _ => ?_) fun _ => .refl _
    intro _ accepted
    refine checkElementSort_eq_ok.mpr fun entry member => ?_
    obtain ⟨⟨resolved, resolves⟩, unit⟩ := checkElementSort_eq_ok.mp accepted entry member
    exact ⟨⟨resolved, resolveChecked_grants relaxes.deepens resolved resolves⟩, unit⟩
  · exact .refl _

theorem checkInsertion_grants (relaxes : config.Relaxes relaxed) :
    Grants (checkInsertion config name allowed target payload)
      (checkInsertion relaxed name allowed target payload) := by
  unfold checkInsertion
  split
  · refine .ite (fun _ => ?_) fun _ => .refl _
    intro _ accepted
    obtain ⟨known, each, position, slice, sorted⟩ := checkModifiers_eq_ok.mp accepted
    refine checkModifiers_eq_ok.mpr ⟨known, each, position, slice, fun sort given => ?_⟩
    exact checkPushSort_grants relaxes _ (sorted sort given)
  · exact .refl _

theorem checkPull_grants (relaxes : config.Relaxes relaxed) :
    Grants (checkPull config target payload) (checkPull relaxed target payload) := by
  unfold checkPull
  split
  · refine .ite (fun _ => ?_) fun _ => .ite (fun _ => ?_) fun _ => .refl _
    · exact (Json.checkFilter_grants relaxes).within
    · exact Json.checkFilter_grants relaxes
  · exact .refl _

theorem UpdatePayload.check_grants (form : UpdatePayload) (relaxes : config.Relaxes relaxed) :
    Grants (form.check config name target payload) (form.check relaxed name target payload) := by
  cases form with
  | push => exact checkInsertion_grants relaxes
  | addToSet => exact checkInsertion_grants relaxes
  | pull => exact checkPull_grants relaxes
  | _ => exact .refl _

theorem checkEntry_grants (relaxes : config.Relaxes relaxed) :
    Grants (checkEntry config root operator path payload)
      (checkEntry relaxed root operator path payload) := by
  refine (checkTarget_grants relaxes).bind fun target => .ite (fun _ => ?_) fun _ => ?_
  · exact (checkRename_grants relaxes).head
  · exact (UpdatePayload.check_grants _ relaxes).head

theorem checkEntries_grants (relaxes : config.Relaxes relaxed) :
    Grants (checkEntries config root operator entries)
      (checkEntries relaxed root operator entries) := by
  induction entries with
  | nil => exact .refl _
  | cons entry rest ih =>
      refine .tail fun _ => ?_
      exact (checkEntry_grants relaxes).within.bind fun _ => ih.head

theorem checkUpdateOperators_grants (relaxes : config.Relaxes relaxed) :
    Grants (checkUpdateOperators config root entries)
      (checkUpdateOperators relaxed root entries) := by
  induction entries with
  | nil => exact .refl _
  | cons entry rest ih =>
      obtain ⟨name, fields⟩ := entry
      rw [checkUpdateOperators.eq_def, checkUpdateOperators.eq_def relaxed]
      dsimp only
      split
      · exact .refl _
      · exact (checkEntries_grants relaxes).bind fun _ => ih.head
      · exact .refl _

theorem checkUpdate_grants (relaxes : config.Relaxes relaxed) :
    Grants (payload.checkUpdate config root) (payload.checkUpdate relaxed root) := by
  unfold Json.checkUpdate
  split
  · exact (checkUpdateOperators_grants relaxes).head
  · exact .refl _

end Updates

end DocTyping
