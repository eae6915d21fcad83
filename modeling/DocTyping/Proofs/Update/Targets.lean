import DocTyping.Proofs.Expression.Rules
import DocTyping.Proofs.Update.Entries

namespace DocTyping

/-!
# Targets of updates

Which paths an update changes can be read off its text: those of its entries, and
the destinations of its renames.  An update is accepted exactly if each of its
entries is accepted as an update of its own and none of these paths leads to
another.
-/

def FieldPath.ofText? (text : String) : Option FieldPath := (FieldPath.parse text).toOption

/-- The path to which an entry of an operator moves a field, if it moves one. -/
def destination? (name : String) (payload : Json) : Option FieldPath :=
  if name = "$rename" then payload.string?.bind FieldPath.ofText? else none

/-- The paths that an entry of an operator changes: its own, and where it moves the field. -/
def statedTargets (name : String) (entry : String × Json) : List FieldPath :=
  (FieldPath.ofText? entry.1).toList ++ (destination? name entry.2).toList

namespace Json

/-- The entries of an update, each with the name of its operator. -/
def updateEntries (update : Json) : List (String × String × Json) :=
  update.entriesOf.flatMap fun operator => operator.2.entriesOf.map fun entry => (operator.1, entry)

def singleUpdate (name : String) (entry : String × Json) : Json :=
  .object [(name, .object [entry])]

/-- The paths that an update changes, each with the name of the operator that changes it. -/
def updateTargets (update : Json) : List (String × FieldPath) :=
  update.updateEntries.flatMap fun (name, entry) =>
    (statedTargets name entry).map fun path => (name, path)

end Json

variable {config : Configuration} {root : Schema} {operator : UpdateOperator} {name : String}
  {entry : String × Json} {entries : List (String × Json)} {path destination : FieldPath}
  {target : UpdateTarget} {targets : List FieldPath} {update : Json}

namespace UpdateOperator

theorem named?_eq_some (known : named? name = some operator) :
    operator ∈ all ∧ operator.name = name :=
  ⟨List.mem_of_find?_eq_some known, by simpa using List.find?_some known⟩

theorem renames_iff (known : named? name = some operator) :
    operator.payload = .renameTarget ↔ name = "$rename" := by
  have table : ∀ operator ∈ all, operator.payload = .renameTarget ↔ operator.name = "$rename" := by
    decide
  obtain ⟨listed, rfl⟩ := named?_eq_some known
  exact table operator listed

theorem rename_form (known : named? name = some operator)
    (renames : operator.payload = .renameTarget) :
    operator.removesField = true ∧ operator.allowPlaceholders = false := by
  have table : ∀ operator ∈ all, operator.payload = .renameTarget →
      operator.removesField = true ∧ operator.allowPlaceholders = false := by decide
  exact table operator (named?_eq_some known).1 renames

theorem inserts_iff (known : named? name = some operator) :
    operator.payload = .insertValue ↔ name = "$setOnInsert" := by
  have table :
      ∀ operator ∈ all, operator.payload = .insertValue ↔ operator.name = "$setOnInsert" := by
    decide
  obtain ⟨listed, rfl⟩ := named?_eq_some known
  exact table operator listed

end UpdateOperator

theorem FieldPath.ofText?_eq_some {text : String} :
    FieldPath.ofText? text = some path ↔ FieldPath.parse text = .ok path :=
  toOption_eq_some_iff

theorem resolveTarget_path {options : ResolveOptions}
    (resolves : resolveTarget root path options = .ok target) : target.path = path := by
  obtain ⟨resolved, _, made⟩ := bind_eq_ok.mp resolves
  cases made
  rfl

/-- What an entry changes when it is accepted: its path, or for a rename also where it moves the
field to. -/
theorem entryTargets_eq_ok :
    entryTargets config root operator entry = .ok targets ↔
      ∃ path target, FieldPath.parse entry.1 = .ok path ∧
        checkTarget config root operator path = .ok target ∧
          if operator.payload = .renameTarget then
            ∃ destination, checkRename config root target entry.2 = .ok destination ∧
              targets = [path, destination]
          else
            operator.payload.check config operator.name target entry.2 = .ok () ∧
              targets = [path] := by
  simp only [entryTargets, checkEntry, bind_eq_ok, mapError_eq_ok, within_eq_ok]
  refine exists_congr fun path => ?_
  rw [← exists_and_left]
  refine exists_congr fun target => ?_
  split
  · simp only [bind_eq_ok, pure_eq_ok, @eq_comm _ _ targets]
  · simp only [unit_bind_eq_ok, pure_eq_ok, @eq_comm _ _ targets]

theorem overlaps_eq_false_iff {first second : FieldPath} :
    first.overlaps second = false ↔
      ¬ first.segments <+: second.segments ∧ ¬ second.segments <+: first.segments := by
  rw [← Bool.not_eq_true, FieldPath.overlaps, Bool.or_eq_true, not_or, FieldPath.leadsTo,
    FieldPath.leadsTo, List.isPrefixOf_iff_prefix, List.isPrefixOf_iff_prefix]

/-- What an accepted entry changes can be read off its text, and no part of it overlaps another. -/
theorem entryTargets_stated (known : UpdateOperator.named? name = some operator)
    (accepted : entryTargets config root operator entry = .ok targets) :
    targets = statedTargets name entry ∧
      targets.Pairwise fun first second => first.overlaps second = false := by
  obtain ⟨path, target, parsed, addressed, checked⟩ := entryTargets_eq_ok.mp accepted
  have read := FieldPath.ofText?_eq_some.mpr parsed
  split at checked
  · rename_i renames
    obtain ⟨destination, renamed, rfl⟩ := checked
    obtain ⟨text, stated, _, spelled, apart, _⟩ := checkRename_eq_ok.mp renamed
    obtain ⟨_, resolves, _⟩ := checkTarget_eq_ok.mp addressed
    rw [resolveTarget_path resolves, FieldPath.overlaps_comm] at apart
    have moved : destination? name entry.2 = some destination := by
      rw [destination?, if_pos ((UpdateOperator.renames_iff known).mp renames), stated]
      exact FieldPath.ofText?_eq_some.mpr spelled
    refine ⟨?_, by simpa using apart⟩
    rw [statedTargets, read, moved]
    rfl
  · rename_i writes
    obtain ⟨_, rfl⟩ := checked
    have unmoved : destination? name entry.2 = none :=
      if_neg fun renames => writes ((UpdateOperator.renames_iff known).mpr renames)
    refine ⟨?_, List.pairwise_singleton _ _⟩
    rw [statedTargets, read, unmoved]
    rfl

theorem operatorTargets_object (known : UpdateOperator.named? name = some operator) :
    operatorTargets config root (name, .object entries) =
      checkEntries config root operator entries := by
  simp only [operatorTargets, known]

theorem operatorTargets_shape {held : String × Json}
    (accepted : operatorTargets config root held = .ok targets) :
    ∃ operator entries, UpdateOperator.named? held.1 = some operator ∧
      held.2 = .object entries := by
  unfold operatorTargets at accepted
  split at accepted
  · contradiction
  · rename_i operator entries known stated
    exact ⟨operator, entries, known, stated⟩
  · contradiction

/-- An operator is accepted exactly if each of its entries is, and what it changes can be read off
its text. -/
theorem operatorTargets_eq_ok (known : UpdateOperator.named? name = some operator) :
    operatorTargets config root (name, .object entries) = .ok targets ↔
      (∀ entry ∈ entries, ∃ some, entryTargets config root operator entry = .ok some) ∧
        targets = entries.flatMap (statedTargets name) := by
  rw [operatorTargets_object known, checkEntries_eq_ok]
  refine and_congr_right fun each => ?_
  rw [List.flatMap_congr fun entry member => ?_]
  obtain ⟨some, accepted⟩ := each entry member
  rw [found_of_eq_ok accepted]
  exact (entryTargets_stated known accepted).1

theorem single_eq_ok :
    (Json.singleUpdate name entry).checkUpdate config root = .ok () ↔
      ∃ operator, UpdateOperator.named? name = some operator ∧
        ∃ targets, entryTargets config root operator entry = .ok targets := by
  rw [checkUpdate_eq_ok]
  constructor
  · intro accepted
    obtain ⟨operators, same, _, each, _⟩ := accepted
    cases same
    obtain ⟨targets, accepted⟩ := each _ List.mem_cons_self
    obtain ⟨operator, held, known, stated⟩ := operatorTargets_shape accepted
    cases stated
    exact ⟨operator, known, ((operatorTargets_eq_ok known).mp accepted).1 entry List.mem_cons_self⟩
  · intro accepted
    obtain ⟨operator, known, targets, accepted⟩ := accepted
    obtain ⟨stated, apart⟩ := entryTargets_stated known accepted
    have whole : operatorTargets config root (name, .object [entry]) = .ok targets := by
      refine (operatorTargets_eq_ok known).mpr ⟨?_, by simpa using stated⟩
      simpa using ⟨targets, accepted⟩
    refine ⟨_, rfl, List.cons_ne_nil _ _, by simpa using ⟨targets, whole⟩, ?_⟩
    simpa [found_of_eq_ok whole] using apart

theorem operatorTargets_stated {held : String × Json}
    (accepted : operatorTargets config root held = .ok targets) :
    targets = held.2.entriesOf.flatMap (statedTargets held.1) := by
  obtain ⟨name, fields⟩ := held
  obtain ⟨operator, entries, known, stated⟩ := operatorTargets_shape accepted
  cases stated
  exact ((operatorTargets_eq_ok known).mp accepted).2

/-- An operator is accepted exactly if it is known, states an object, and each of its entries is
accepted as an update of its own. -/
theorem operatorTargets_accepted {held : String × Json} :
    (∃ targets, operatorTargets config root held = .ok targets) ↔
      ((UpdateOperator.named? held.1).isSome = true ∧ held.2.object?.isSome = true) ∧
        ∀ entry ∈ held.2.entriesOf,
          (Json.singleUpdate held.1 entry).checkUpdate config root = .ok () := by
  obtain ⟨name, fields⟩ := held
  constructor
  · intro accepted
    obtain ⟨targets, accepted⟩ := accepted
    obtain ⟨operator, entries, known, stated⟩ := operatorTargets_shape accepted
    cases stated
    refine ⟨⟨Option.isSome_iff_exists.mpr ⟨operator, known⟩, rfl⟩, fun entry member => ?_⟩
    have each := ((operatorTargets_eq_ok known).mp accepted).1
    exact single_eq_ok.mpr ⟨operator, known, each entry member⟩
  · intro accepted
    obtain ⟨⟨listed, object⟩, each⟩ := accepted
    obtain ⟨operator, known⟩ := Option.isSome_iff_exists.mp listed
    cases fields with
    | object entries =>
        refine ⟨_, (operatorTargets_eq_ok known).mpr ⟨fun entry member => ?_, rfl⟩⟩
        obtain ⟨same, again, reached⟩ := single_eq_ok.mp (each entry member)
        cases known.symm.trans again
        exact reached
    | _ => contradiction

namespace Json

variable {operators : List (String × Json)}

theorem mem_updateEntries_object {stated : String × String × Json} :
    stated ∈ (object operators).updateEntries ↔
      ∃ fields, (stated.1, fields) ∈ operators ∧ stated.2 ∈ fields.entriesOf := by
  simp only [updateEntries, entriesOf, List.mem_flatMap, List.mem_map]
  constructor
  · intro listed
    obtain ⟨⟨name, fields⟩, member, entry, inside, rfl⟩ := listed
    exact ⟨fields, member, inside⟩
  · intro listed
    obtain ⟨fields, member, inside⟩ := listed
    exact ⟨_, member, stated.2, inside, rfl⟩

theorem paths_updateTargets_object :
    (object operators).updateTargets.map Prod.snd =
      operators.flatMap fun operator =>
        operator.2.entriesOf.flatMap (statedTargets operator.1) := by
  simp only [updateTargets, updateEntries, entriesOf, List.map_flatMap, List.flatMap_assoc,
    List.flatMap_map, List.map_map, Function.comp_def, List.map_id_fun']
  rfl

/-- The paths that are compared when the operators are accepted are those that the update states. -/
theorem apart_updateTargets_object
    (each : ∀ operator ∈ operators, ∃ targets, operatorTargets config root operator = .ok targets) :
    ((object operators).updateTargets.Pairwise fun first second =>
        ¬ first.2.segments <+: second.2.segments ∧ ¬ second.2.segments <+: first.2.segments) ↔
      (operators.flatMap fun operator => found (operatorTargets config root operator)).Pairwise
        fun first second => first.overlaps second = false := by
  have gathered : (operators.flatMap fun operator => found (operatorTargets config root operator)) =
      (object operators).updateTargets.map Prod.snd := by
    rw [paths_updateTargets_object]
    refine List.flatMap_congr fun operator member => ?_
    obtain ⟨targets, accepted⟩ := each operator member
    rw [found_of_eq_ok accepted, operatorTargets_stated accepted]
  simp only [gathered, List.pairwise_map, overlaps_eq_false_iff]

end Json

theorem single_of_accepted {stated : String × String × Json}
    (accepted : update.checkUpdate config root = .ok ()) (listed : stated ∈ update.updateEntries) :
    (Json.singleUpdate stated.1 stated.2).checkUpdate config root = .ok () := by
  obtain ⟨operators, rfl, _, each, _⟩ := checkUpdate_eq_ok.mp accepted
  obtain ⟨fields, member, inside⟩ := Json.mem_updateEntries_object.mp listed
  exact (operatorTargets_accepted.mp (each _ member)).2 stated.2 inside

/-- An update is accepted exactly if it states known operators, each of its entries is accepted as
an update of its own, and no path that it changes equals another one or leads to it. -/
theorem checkUpdate_decomposes :
    update.checkUpdate config root = .ok () ↔
      (∃ operators, update = .object operators ∧ operators ≠ [] ∧
        ∀ operator ∈ operators, (UpdateOperator.named? operator.1).isSome = true ∧
          operator.2.object?.isSome = true) ∧
      (∀ stated ∈ update.updateEntries,
        (Json.singleUpdate stated.1 stated.2).checkUpdate config root = .ok ()) ∧
      update.updateTargets.Pairwise fun first second =>
        ¬ first.2.segments <+: second.2.segments ∧ ¬ second.2.segments <+: first.2.segments := by
  constructor
  · intro accepted
    have entries : ∀ stated ∈ update.updateEntries,
        (Json.singleUpdate stated.1 stated.2).checkUpdate config root = .ok () :=
      fun _ listed => single_of_accepted accepted listed
    obtain ⟨operators, rfl, filled, each, apart⟩ := checkUpdate_eq_ok.mp accepted
    rw [Json.apart_updateTargets_object each]
    refine ⟨⟨operators, rfl, filled, fun operator member => ?_⟩, entries, apart⟩
    exact (operatorTargets_accepted.mp (each operator member)).1
  · intro decomposed
    obtain ⟨⟨operators, rfl, filled, shaped⟩, each, apart⟩ := decomposed
    have accepted : ∀ operator ∈ operators,
        ∃ targets, operatorTargets config root operator = .ok targets := by
      intro operator member
      refine operatorTargets_accepted.mpr ⟨shaped operator member, fun entry inside => ?_⟩
      exact each (operator.1, entry) (Json.mem_updateEntries_object.mpr ⟨_, member, inside⟩)
    rw [Json.apart_updateTargets_object accepted] at apart
    exact checkUpdate_eq_ok.mpr ⟨operators, rfl, filled, accepted, apart⟩

end DocTyping
