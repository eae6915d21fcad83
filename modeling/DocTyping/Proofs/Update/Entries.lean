import DocTyping.Proofs.Checked
import DocTyping.Update.Check
import Mathlib.Data.List.Perm.Basic

namespace DocTyping

/-!
# Accepted updates

What an accepted update satisfies, entry by entry: no entry knows of another, and
the targets of all entries are compared once they are known.
-/

variable {config : Configuration} {root element : Schema} {operator : UpdateOperator}
  {path destination : FieldPath} {target source : UpdateTarget} {payload : Json} {name text : String}
  {entries modifiers : List (String × Json)} {targets : List FieldPath}

@[simp] theorem throw_bind {ε α β : Type} (cause : ε) (next : α → Except ε β) :
    ((throw cause : Except ε α) >>= next) = .error cause := rfl

theorem refused_unless_eq_ok {ε α : Type} {condition : Prop} [Decidable condition] {cause : ε}
    {otherwise : Except ε α} {result : α} :
    (if condition then .error cause else otherwise) = .ok result ↔
      ¬ condition ∧ otherwise = .ok result := by
  split
  · rename_i holds
    simp [holds]
  · rename_i fails
    simp [fails]

theorem checkTarget_eq_ok :
    checkTarget config root operator path = .ok target ↔
      ¬ (path.head? = some "_id" ∧ operator.payload ≠ .insertValue) ∧
        resolveTarget root path
          { config.resolveOptions with allowPlaceholders := operator.allowPlaceholders } =
            .ok target ∧
        operator.capability.admits target.node = true ∧
        (operator.removesField = true → target.arrival.optional = true ∨
          config.allowUnsetRequired = true) := by
  unfold checkTarget
  simp only [throw_bind, refused_unless_eq_ok, bind_eq_ok, pure_eq_ok]
  constructor
  · intro accepted
    obtain ⟨writable, found, resolves, admitted, removable, rfl⟩ := accepted
    refine ⟨writable, resolves, by simpa using admitted, ?_⟩
    intro removes
    by_cases optional : found.arrival.optional = true
    · exact .inl optional
    · exact .inr (by simpa [removes, optional] using removable)
  · intro accepted
    obtain ⟨writable, resolves, admitted, removable⟩ := accepted
    refine ⟨writable, target, resolves, by simp [admitted], ?_, rfl⟩
    intro refused
    simp only [Bool.and_eq_true, Bool.not_eq_true'] at refused
    rcases removable refused.1.1 with optional | allowed
    · simp [optional] at refused
    · simp [allowed] at refused

theorem checkRename_eq_ok :
    checkRename config root source payload = .ok destination ↔
      ∃ text, payload = .string text ∧ source.arrival.traversedArray = false ∧
        FieldPath.parse text = .ok destination ∧ destination.overlaps source.path = false ∧
        ∃ target, resolveTarget root destination config.resolveOptions = .ok target ∧
          (target.node != source.node) = false ∧ target.arrival.traversedArray = false := by
  cases payload with
  | string text =>
      unfold checkRename
      simp only [throw_bind, refused_unless_eq_ok, bind_eq_ok, pure_eq_ok, mapError_eq_ok,
        Bool.not_eq_true]
      constructor
      · intro accepted
        obtain ⟨outside, found, parsed, apart, target, resolves, same, inside, rfl⟩ := accepted
        exact ⟨text, rfl, outside, parsed, apart, target, resolves, same, inside⟩
      · intro accepted
        obtain ⟨_, stated, outside, parsed, apart, target, resolves, same, inside⟩ := accepted
        cases stated
        exact ⟨outside, destination, parsed, apart, target, resolves, same, inside, rfl⟩
  | _ => simp [checkRename]

def entryTargets (config : Configuration) (root : Schema) (operator : UpdateOperator)
    (entry : String × Json) : Checked (List FieldPath) := do
  let path ← (FieldPath.parse entry.1).mapError Refusal.ofPath
  Checked.within path.render (checkEntry config root operator path entry.2)

def operatorTargets (config : Configuration) (root : Schema) (entry : String × Json) :
    Checked (List FieldPath) :=
  match UpdateOperator.named? entry.1, entry.2 with
  | none, _ => .error (.of (.unknownOperator entry.1 .update))
  | some operator, .object entries => checkEntries config root operator entries
  | some _, _ => .error (.argument entry.1 (.expected .pathsToValues))

/-- What a computation finds; nothing if it fails. -/
def found {ε α : Type} (checked : Except ε (List α)) : List α := checked.toOption.getD []

theorem found_of_eq_ok {ε α : Type} {checked : Except ε (List α)} {result : List α}
    (reached : checked = .ok result) : found checked = result := by
  rw [reached]
  rfl

theorem gathering_eq_ok {ε α β : Type} {gather : List α → Except ε (List β)} {items : List α}
    {results : List β} (step : α → Except ε (List β)) (nil : gather [] = .ok [])
    (cons : ∀ item rest, gather (item :: rest) =
      step item >>= fun first => gather rest >>= fun later => pure (first ++ later)) :
    gather items = .ok results ↔
      (∀ item ∈ items, ∃ some, step item = .ok some) ∧
        results = items.flatMap fun item => found (step item) := by
  induction items generalizing results with
  | nil => simp [nil, eq_comm]
  | cons item rest ih =>
      simp only [cons, bind_eq_ok, pure_eq_ok, ih, List.forall_mem_cons, List.flatMap_cons]
      constructor
      · intro accepted
        obtain ⟨first, head, _, ⟨later, rfl⟩, rfl⟩ := accepted
        rw [found_of_eq_ok head]
        exact ⟨⟨⟨first, head⟩, later⟩, rfl⟩
      · intro accepted
        obtain ⟨⟨⟨first, head⟩, later⟩, rfl⟩ := accepted
        rw [found_of_eq_ok head]
        exact ⟨first, head, _, ⟨later, rfl⟩, rfl⟩

theorem checkEntries_eq_ok :
    checkEntries config root operator entries = .ok targets ↔
      (∀ entry ∈ entries, ∃ some, entryTargets config root operator entry = .ok some) ∧
        targets = entries.flatMap fun entry => found (entryTargets config root operator entry) := by
  refine gathering_eq_ok (entryTargets config root operator) rfl ?_
  intro entry rest
  obtain ⟨text, payload⟩ := entry
  rw [checkEntries, entryTargets]
  cases (FieldPath.parse text).mapError Refusal.ofPath with
  | error refusal => rfl
  | ok path => rfl

theorem checkUpdateOperators_eq_ok :
    checkUpdateOperators config root entries = .ok targets ↔
      (∀ entry ∈ entries, ∃ some, operatorTargets config root entry = .ok some) ∧
        targets = entries.flatMap fun entry => found (operatorTargets config root entry) := by
  refine gathering_eq_ok (operatorTargets config root) rfl ?_
  intro entry rest
  obtain ⟨name, fields⟩ := entry
  rw [checkUpdateOperators.eq_def, operatorTargets]
  dsimp only
  cases UpdateOperator.named? name with
  | none => rfl
  | some operator => cases fields <;> rfl

theorem FieldPath.overlaps_comm (first second : FieldPath) :
    first.overlaps second = second.overlaps first :=
  Bool.or_comm _ _

theorem firstOverlap?_eq_none :
    firstOverlap? targets = none ↔
      targets.Pairwise fun first second => first.overlaps second = false := by
  induction targets with
  | nil => simp [firstOverlap?]
  | cons first rest ih =>
      rw [firstOverlap?, List.pairwise_cons, ← ih]
      split
      · rename_i second search
        have overlap := List.find?_some search
        have member := List.mem_of_find?_eq_some search
        constructor
        · intro absent
          contradiction
        · intro apart
          simp [apart.1 second member] at overlap
      · rename_i search
        have apart : ∀ second ∈ rest, first.overlaps second = false := by
          simpa using List.find?_eq_none.mp search
        simp only [iff_and_self]
        exact fun _ => apart

theorem checkOverlaps_eq_ok :
    checkOverlaps targets = .ok () ↔
      targets.Pairwise fun first second => first.overlaps second = false := by
  rw [← firstOverlap?_eq_none]
  unfold checkOverlaps
  split
  · rename_i search
    simp [search]
  · rename_i search
    simp [search]

/-- An update is accepted exactly if it is a filled object, each of its operators is accepted, and
no two of all their targets overlap. -/
theorem checkUpdate_eq_ok {update : Json} :
    update.checkUpdate config root = .ok () ↔
      ∃ entries, update = .object entries ∧ entries ≠ [] ∧
        (∀ entry ∈ entries, ∃ targets, operatorTargets config root entry = .ok targets) ∧
          (entries.flatMap fun entry => found (operatorTargets config root entry)).Pairwise
            fun first second => first.overlaps second = false := by
  unfold Json.checkUpdate
  split
  · rename_i first rest
    simp only [bind_eq_ok, checkUpdateOperators_eq_ok, checkOverlaps_eq_ok, Json.object.injEq]
    constructor
    · intro accepted
      obtain ⟨_, ⟨each, rfl⟩, apart⟩ := accepted
      exact ⟨_, rfl, List.cons_ne_nil first rest, each, apart⟩
    · intro accepted
      obtain ⟨_, rfl, _, each, apart⟩ := accepted
      exact ⟨_, ⟨each, rfl⟩, apart⟩
  · rename_i other
    simp only [reduceCtorEq, false_iff]
    intro accepted
    obtain ⟨entries, same, filled, _⟩ := accepted
    obtain ⟨first, rest, rfl⟩ := List.exists_cons_of_ne_nil filled
    exact other first rest same

theorem expectConforming_eq_ok {place : String} {schema : Schema} {nullable : Bool}
    {presence : Presence} :
    expectConforming place schema payload nullable presence = .ok () ↔
      schema.admits payload nullable presence = true := by
  unfold expectConforming
  split
  · rename_i fits
    simp [fits]
  · rename_i fails
    simp [fails]

theorem expectAllConforming_eq_ok {place : String} {presence : Presence} {items : List Json} :
    expectAllConforming place element presence items = .ok () ↔
      ∀ item ∈ items, element.admits item false presence = true := by
  induction items with
  | nil => simp [expectAllConforming]
  | cons item rest ih =>
      rw [expectAllConforming, unit_bind_eq_ok, expectConforming_eq_ok, ih, List.forall_mem_cons]

theorem checkElementSort_eq_ok :
    checkElementSort config element entries = .ok () ↔
      ∀ entry ∈ entries,
        (∃ resolved, resolveChecked element entry.1 config.resolveOptions = .ok resolved) ∧
          entry.2.isUnitDirection = true := by
  induction entries with
  | nil => simp [checkElementSort]
  | cons entry rest ih =>
      obtain ⟨key, direction⟩ := entry
      simp only [checkElementSort, bind_eq_ok, demand_eq_ok, List.forall_mem_cons, ih]
      constructor
      · intro accepted
        obtain ⟨resolved, resolves, _, unit, later⟩ := accepted
        exact ⟨⟨⟨resolved, resolves⟩, unit⟩, later⟩
      · intro accepted
        obtain ⟨⟨⟨resolved, resolves⟩, unit⟩, later⟩ := accepted
        exact ⟨resolved, resolves, (), unit, later⟩

theorem checkPushSort_eq_ok {sort : Json} :
    checkPushSort config element sort = .ok () ↔
      sort.isUnitDirection = true ∨
        ∃ entries, sort = .object entries ∧ entries ≠ [] ∧ element.isObject = true ∧
          checkElementSort config element entries = .ok () := by
  unfold checkPushSort
  by_cases unit : sort.isUnitDirection = true
  · simp [unit]
  · simp only [unit, Bool.false_eq_true, ↓reduceIte, false_or]
    split
    · rename_i first rest
      split
      · rename_i documents
        simp [documents]
      · rename_i scalars
        simp [scalars]
    · rename_i other
      simp only [reduceCtorEq, false_iff]
      intro accepted
      obtain ⟨entries, stated, filled, _⟩ := accepted
      obtain ⟨first, rest, rfl⟩ := List.exists_cons_of_ne_nil filled
      exact other first rest stated

theorem checkModifiers_eq_ok {allowed : List String} :
    checkModifiers config name allowed target modifiers = .ok () ↔
      (∀ entry ∈ modifiers, entry.1 ∈ allowed) ∧
        (∃ items, modifiers.lookup "$each" = some (.array items) ∧
          ∀ item ∈ items, target.element.admits item false (Presence.suiting target.element) = true) ∧
        checkIntegerModifier name modifiers "$position" = .ok () ∧
        checkIntegerModifier name modifiers "$slice" = .ok () ∧
        ∀ sort, modifiers.lookup "$sort" = some sort →
          checkPushSort config target.element sort = .ok () := by
  unfold checkModifiers
  cases unknown : modifiers.find? fun entry => !allowed.contains entry.1 with
  | some entry =>
      have refused := List.find?_some unknown
      have member := List.mem_of_find?_eq_some unknown
      simp only [throw_bind, reduceCtorEq, false_iff]
      intro accepted
      simp [accepted.1 entry member] at refused
  | none =>
      have known : ∀ entry ∈ modifiers, entry.1 ∈ allowed := by
        simpa using List.find?_eq_none.mp unknown
      simp only
      cases given : modifiers.lookup "$each" with
      | none => simp
      | some value =>
          cases value with
          | array items =>
              simp only [unit_bind_eq_ok, expectAllConforming_eq_ok, Option.some.injEq,
                Json.array.injEq, exists_eq_left']
              cases modifiers.lookup "$sort" with
              | none => simpa [pure, Except.pure] using fun _ _ _ => known
              | some sort => simpa using fun _ _ _ _ => known
          | _ => simp

end DocTyping
