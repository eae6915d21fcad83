import DocTyping.Proofs.Reordering.Filters
import DocTyping.Proofs.Update.Entries

namespace DocTyping

/-!
# Updates up to the order of keys

The entries of an update are checked each for itself, and then all their targets
are compared in pairs.  With the keys in another order the same targets are
compared, only in another order.
-/

namespace Json.Reorders

variable {value other : Json}

theorem isNumericLiteral_eq (alike : value.Reorders other) :
    value.isNumericLiteral = other.isNumericLiteral := by
  rw [isNumericLiteral, isNumericLiteral, alike.isNumber_eq, alike.extended?_eq]

theorem isUnitDirection_eq (alike : value.Reorders other) :
    value.isUnitDirection = other.isUnitDirection := by
  rw [isUnitDirection, isUnitDirection, alike.int64?_eq]

theorem isUnsetMarker_eq (alike : value.Reorders other) :
    value.isUnsetMarker = other.isUnsetMarker := by
  rw [isUnsetMarker, isUnsetMarker, alike.bool?_eq, alike.string?_eq, alike.int64?_eq]

theorem isBitwiseOperation (alike : value.Reorders other)
    (shaped : value.isBitwiseOperation = true) : other.isBitwiseOperation = true := by
  cases alike with
  | object names values =>
      have alike : Keyed.Alike Reorders _ _ := ⟨names, values⟩
      simp only [Json.isBitwiseOperation, Bool.and_eq_true, List.all_eq_true] at shaped ⊢
      obtain ⟨filled, each⟩ := shaped
      rw [← alike.isEmpty_eq]
      refine ⟨filled, fun held member => ?_⟩
      obtain ⟨entry, stated, same, below⟩ := alike.exists_of_mem member
      rw [← same, ← below.int64?_eq]
      exact each entry stated
  | _ => contradiction

theorem dateRequest? {kind : ScalarKind} (alike : value.Reorders other)
    (asked : value.dateRequest? = some kind) : other.dateRequest? = some kind := by
  unfold Json.dateRequest? at asked
  split at asked
  · cases alike with
    | bool => exact asked
  · obtain ⟨counterpart, rfl, below⟩ := alike.exists_single
    rw [below.eq_string]
    exact asked
  · obtain ⟨counterpart, rfl, below⟩ := alike.exists_single
    rw [below.eq_string]
    exact asked
  · contradiction

end Json.Reorders

variable {config : Configuration} {root element : Schema} {operator : UpdateOperator}
  {path destination : FieldPath} {target : UpdateTarget} {payload other : Json} {name text : String}
  {entries others : List (String × Json)} {allowed : List String} {targets : List FieldPath}

theorem expectConforming_reorders {schema : Schema} {nullable : Bool} {presence : Presence}
    (alike : payload.Reorders other)
    (accepted : expectConforming text schema payload nullable presence = .ok ()) :
    expectConforming text schema other nullable presence = .ok () := by
  rw [expectConforming_eq_ok] at accepted ⊢
  exact alike.admits accepted

theorem all_admitted {items permuted : List Json} {presence : Presence}
    (alike : List.Forall₂ Json.Reorders items permuted)
    (each : ∀ item ∈ items, element.admits item false presence = true) :
    ∀ held ∈ permuted, element.admits held false presence = true := by
  intro held member
  obtain ⟨item, stated, same⟩ := exists_of_mem_right alike member
  exact same.admits (each item stated)

theorem checkPushSort_reorders (alike : payload.Reorders other)
    (accepted : checkPushSort config element payload = .ok ()) :
    checkPushSort config element other = .ok () := by
  rcases checkPushSort_eq_ok.mp accepted with unit | ⟨entries, rfl, filled, documents, sorted⟩
  · rw [alike.isUnitDirection_eq] at unit
    exact checkPushSort_eq_ok.mpr (.inl unit)
  · obtain ⟨others, rfl, inside⟩ := alike.exists_object
    refine checkPushSort_eq_ok.mpr (.inr ⟨others, rfl, inside.ne_nil filled, documents, ?_⟩)
    refine checkElementSort_eq_ok.mpr fun held member => ?_
    obtain ⟨entry, stated, same, below⟩ := inside.exists_of_mem member
    rw [← same, ← below.isUnitDirection_eq]
    exact checkElementSort_eq_ok.mp sorted entry stated

theorem checkIntegerModifier_reorders {key : String}
    (alike : Keyed.Alike Json.Reorders entries others) :
    checkIntegerModifier name entries key = checkIntegerModifier name others key := by
  have given : ((entries.lookup key).map fun value => value.int64?.isSome).getD true =
      ((others.lookup key).map fun value => value.int64?.isSome).getD true := by
    let read : Option Json → Bool := fun found =>
      (found.map fun value => value.int64?.isSome).getD true
    refine Json.Reorders.lookup_eq alike key read fun value other same => ?_
    simp only [read, Option.map_some, same.int64?_eq]
  rw [checkIntegerModifier, checkIntegerModifier, given]

theorem checkModifiers_reorders (alike : Keyed.Alike Json.Reorders entries others)
    (accepted : checkModifiers config name allowed target entries = .ok ()) :
    checkModifiers config name allowed target others = .ok () := by
  obtain ⟨known, ⟨items, given, each⟩, position, slice, sorted⟩ := checkModifiers_eq_ok.mp accepted
  rw [checkIntegerModifier_reorders alike] at position slice
  refine checkModifiers_eq_ok.mpr
    ⟨alike.forall_names (· ∈ allowed) known, ?_, position, slice, fun sort stated => ?_⟩
  · obtain ⟨_, held, same⟩ := alike.exists_of_lookup given
    obtain ⟨permuted, rfl, inside⟩ := same.exists_array
    exact ⟨permuted, held, all_admitted inside each⟩
  · obtain ⟨before, found, same⟩ := alike.symm.exists_of_lookup stated
    exact checkPushSort_reorders same (sorted before found)

theorem checkInsertion_reorders (alike : payload.Reorders other)
    (accepted : checkInsertion config name allowed target payload = .ok ()) :
    checkInsertion config name allowed target other = .ok () := by
  cases alike with
  | object names values =>
      have alike : Keyed.Alike Json.Reorders _ _ := ⟨names, values⟩
      unfold checkInsertion at accepted ⊢
      dsimp only at accepted ⊢
      rw [← hasOperatorKey_eq alike, ← Json.extendedKind?_eq alike]
      split
      · rename_i modified
        rw [if_pos modified] at accepted
        exact checkModifiers_reorders alike accepted
      · rename_i plain
        rw [if_neg plain] at accepted
        exact expectConforming_reorders (.object names values) accepted
  | array sameLength each => exact expectConforming_reorders (.array sameLength each) accepted
  | _ => exact accepted

theorem checkPull_reorders (alike : payload.Reorders other) (keys : payload.KeysDistinct)
    (distinct : target.node.NamesDistinct)
    (accepted : checkPull config target payload = .ok ()) :
    checkPull config target other = .ok () := by
  have inside : target.element.NamesDistinct := element?_getD_namesDistinct distinct (.scalar _)
  cases alike with
  | @object entries others names values =>
      have whole := Json.Reorders.object names values
      have alike : Keyed.Alike Json.Reorders entries others := ⟨names, values⟩
      unfold checkPull at accepted ⊢
      dsimp only at accepted ⊢
      rw [← Json.isOperatorObject_eq alike, ← Json.extendedKind?_eq alike]
      split
      · rename_i operators
        rw [if_pos operators] at accepted
        -- The operators are checked as the condition on the one field of a document.
        have wrapped : Json.Reorders (.object [(elementName, .object entries)])
            (.object [(elementName, .object others)]) :=
          .object (.refl _) (by simpa using whole)
        have wrappedKeys : (Json.object [(elementName, .object entries)]).KeysDistinct :=
          .object (by simp [Keyed.names]) (by simpa using keys)
        have schema : (closedObject [(elementName, target.element)]).NamesDistinct :=
          closedObject_namesDistinct (by simp [Keyed.names]) (by simpa using inside)
        exact within_eq_ok.mpr
          (wrapped.checkFilter (by simp) schema wrappedKeys (within_eq_ok.mp accepted))
      · rename_i noOperators
        rw [if_neg noOperators] at accepted
        split
        · rename_i documents
          rw [if_pos documents] at accepted
          exact whole.checkFilter (by simp) inside keys accepted
        · rename_i scalars
          rw [if_neg scalars] at accepted
          exact expectConforming_reorders whole accepted
  | array sameLength each => exact expectConforming_reorders (.array sameLength each) accepted
  | _ => exact accepted

theorem checkCurrentDate_reorders (alike : payload.Reorders other)
    (accepted : checkCurrentDate target payload = .ok ()) :
    checkCurrentDate target other = .ok () := by
  unfold checkCurrentDate at accepted
  split at accepted
  · contradiction
  · rename_i kind asked
    split at accepted
    · rename_i suits
      unfold checkCurrentDate
      rw [alike.dateRequest? asked]
      exact if_pos suits
    · contradiction

theorem UpdatePayload.check_reorders (form : UpdatePayload) (alike : payload.Reorders other)
    (keys : payload.KeysDistinct) (distinct : target.node.NamesDistinct)
    (accepted : form.check config name target payload = .ok ()) :
    form.check config name target other = .ok () := by
  cases form with
  | value => exact expectConforming_reorders alike accepted
  | insertValue => exact expectConforming_reorders alike accepted
  | number =>
      unfold check at accepted ⊢
      dsimp only at accepted ⊢
      rw [← alike.isNumericLiteral_eq]
      split
      · rfl
      · rename_i noNumber
        rw [if_neg noNumber] at accepted
        contradiction
  | bitwise => exact demand_eq_ok.mpr (alike.isBitwiseOperation (demand_eq_ok.mp accepted))
  | currentDate => exact checkCurrentDate_reorders alike accepted
  | unsetMarker =>
      exact demand_eq_ok.mpr (alike.isUnsetMarker_eq.symm.trans (demand_eq_ok.mp accepted))
  | push => exact checkInsertion_reorders alike accepted
  | addToSet => exact checkInsertion_reorders alike accepted
  | pull => exact checkPull_reorders alike keys distinct accepted
  | pullAll =>
      cases alike with
      | array sameLength each =>
          have inside := Json.reorders_array_iff.mp (.array sameLength each)
          have each := expectAllConforming_eq_ok.mp accepted
          exact expectAllConforming_eq_ok.mpr (all_admitted inside each)
      | _ => contradiction
  | pop => exact demand_eq_ok.mpr (alike.isUnitDirection_eq.symm.trans (demand_eq_ok.mp accepted))
  | renameTarget => rfl

theorem checkTarget_namesDistinct (distinct : root.NamesDistinct)
    (accepted : checkTarget config root operator path = .ok target) :
    target.node.NamesDistinct := by
  obtain ⟨_, resolves, _⟩ := checkTarget_eq_ok.mp accepted
  obtain ⟨resolved, found, made⟩ := bind_eq_ok.mp resolves
  cases made
  obtain ⟨_, _, _, goal, walks, rfl⟩ := FieldPath.resolve_eq_ok_iff.mp (mapError_eq_ok.mp found)
  exact walks.namesDistinct distinct

theorem checkEntry_reorders (alike : payload.Reorders other) (keys : payload.KeysDistinct)
    (distinct : root.NamesDistinct)
    (accepted : checkEntry config root operator path payload = .ok targets) :
    checkEntry config root operator path other = .ok targets := by
  obtain ⟨target, addressed, checked⟩ := bind_eq_ok.mp accepted
  have inside := checkTarget_namesDistinct distinct addressed
  refine bind_eq_ok.mpr ⟨target, addressed, ?_⟩
  split
  · rename_i renames
    rw [if_pos renames] at checked
    obtain ⟨destination, renamed, made⟩ := bind_eq_ok.mp checked
    obtain ⟨text, rfl, _⟩ := checkRename_eq_ok.mp renamed
    rw [alike.eq_string]
    exact bind_eq_ok.mpr ⟨destination, renamed, made⟩
  · rename_i writes
    rw [if_neg writes] at checked
    obtain ⟨suits, made⟩ := unit_bind_eq_ok.mp checked
    have suits := UpdatePayload.check_reorders _ alike keys inside suits
    exact unit_bind_eq_ok.mpr ⟨suits, made⟩

theorem entryTargets_reorders (alike : payload.Reorders other) (keys : payload.KeysDistinct)
    (distinct : root.NamesDistinct)
    (accepted : entryTargets config root operator (text, payload) = .ok targets) :
    entryTargets config root operator (text, other) = .ok targets := by
  obtain ⟨path, parsed, checked⟩ := bind_eq_ok.mp accepted
  have checked := checkEntry_reorders alike keys distinct (within_eq_ok.mp checked)
  exact bind_eq_ok.mpr ⟨path, parsed, within_eq_ok.mpr checked⟩

theorem operatorTargets_reorders (alike : payload.Reorders other) (keys : payload.KeysDistinct)
    (distinct : root.NamesDistinct)
    (accepted : operatorTargets config root (name, payload) = .ok targets) :
    ∃ reached, operatorTargets config root (name, other) = .ok reached ∧ targets.Perm reached := by
  unfold operatorTargets at accepted ⊢
  dsimp only at accepted ⊢
  cases known : UpdateOperator.named? name with
  | none =>
      rw [known] at accepted
      contradiction
  | some operator =>
      rw [known] at accepted
      cases alike with
      | @object entries others names values =>
          have alike : Keyed.Alike Json.Reorders entries others := ⟨names, values⟩
          have apart := (Json.keysDistinct_object_iff.mp keys).2
          obtain ⟨each, rfl⟩ := checkEntries_eq_ok.mp accepted
          have kept : ∀ entry ∈ entries, ∀ held ∈ others, entry.1 = held.1 → ∃ some,
              entryTargets config root operator entry = .ok some ∧
                entryTargets config root operator held = .ok some := by
            intro entry member held stated same
            obtain ⟨targets, reached⟩ := each entry member
            have below := alike.values entry member held stated same
            refine ⟨targets, reached, ?_⟩
            obtain ⟨key, value⟩ := entry
            obtain ⟨_, counterpart⟩ := held
            cases same
            exact entryTargets_reorders below (apart _ member) distinct reached
          refine ⟨_, checkEntries_eq_ok.mpr ⟨fun held stated => ?_, rfl⟩, ?_⟩
          · obtain ⟨entry, member, same, _⟩ := alike.exists_of_mem stated
            obtain ⟨targets, _, reached⟩ := kept entry member held stated same
            exact ⟨targets, reached⟩
          · refine alike.flatMap_perm fun entry member held stated same => ?_
            obtain ⟨targets, before, after⟩ := kept entry member held stated same
            rw [found_of_eq_ok before, found_of_eq_ok after]
      | _ => contradiction

theorem Json.Reorders.checkUpdate (alike : payload.Reorders other) (keys : payload.KeysDistinct)
    (distinct : root.NamesDistinct) (accepted : payload.checkUpdate config root = .ok ()) :
    other.checkUpdate config root = .ok () := by
  obtain ⟨entries, rfl, filled, each, apart⟩ := checkUpdate_eq_ok.mp accepted
  obtain ⟨others, rfl, inside⟩ := alike.exists_object
  have below := (Json.keysDistinct_object_iff.mp keys).2
  have kept : ∀ entry ∈ entries, ∀ held ∈ others, entry.1 = held.1 → ∃ before after,
      operatorTargets config root entry = .ok before ∧
        operatorTargets config root held = .ok after ∧ before.Perm after := by
    intro entry member held stated same
    obtain ⟨before, reached⟩ := each entry member
    have alike := inside.values entry member held stated same
    obtain ⟨key, value⟩ := entry
    obtain ⟨_, counterpart⟩ := held
    cases same
    obtain ⟨after, counted, perm⟩ :=
      operatorTargets_reorders alike (below _ member) distinct reached
    exact ⟨before, after, reached, counted, perm⟩
  refine checkUpdate_eq_ok.mpr ⟨others, rfl, inside.ne_nil filled, fun held stated => ?_, ?_⟩
  · obtain ⟨entry, member, same, _⟩ := inside.exists_of_mem stated
    obtain ⟨_, after, _, reached, _⟩ := kept entry member held stated same
    exact ⟨after, reached⟩
  · have perm : (entries.flatMap fun entry => found (operatorTargets config root entry)).Perm
        (others.flatMap fun held => found (operatorTargets config root held)) := by
      refine inside.flatMap_perm fun entry member held stated same => ?_
      obtain ⟨before, after, reached, counted, perm⟩ := kept entry member held stated same
      rw [found_of_eq_ok reached, found_of_eq_ok counted]
      exact perm
    refine (perm.pairwise_iff fun {first second} apart => ?_).mp apart
    rw [FieldPath.overlaps_comm]
    exact apart

end DocTyping
