import DocTyping.Proofs.Filter.Equality
import DocTyping.Proofs.Literal.Widening
import DocTyping.Proofs.Update.Pulling

namespace DocTyping

/-!
# Lists of elements

`$push` and `$addToSet` add the elements of a list to an array, and `$pullAll` takes them out.
All three ask for an array outside `_id` and for elements of its type.  But what is added to
identifiable documents may leave out every field besides `_id`, and what is taken out may not.
-/

namespace Schema

/-- Some document of a value, below array levels only, leaves out a field other than `_id` that a
complete one has to give. -/
inductive LeavesOut : Schema → Json → Prop
  | field {shape : Shape Schema} {entries : List (String × Json)} {field : Field Schema}
      (member : field ∈ shape.fields) (required : field.optional = false)
      (other : field.name ≠ "_id") (missing : Keyed.has entries field.name = false) :
      LeavesOut (object shape) (.object entries)
  | item {element : Schema} {items : List Json} {item : Json} (member : item ∈ items)
      (inside : LeavesOut element item) : LeavesOut (array element) (.array items)

variable {element : Schema} {shape : Shape Schema} {entries : List (String × Json)}
  {items : List Json}

theorem not_leavesOut_scalar {kind : ScalarKind} {value : Json} :
    ¬ (scalar kind).LeavesOut value := by
  intro leaves
  cases leaves

theorem not_leavesOut_null {schema : Schema} : ¬ schema.LeavesOut .null := by
  intro leaves
  cases leaves

theorem leavesOut_array_iff :
    (array element).LeavesOut (.array items) ↔ ∃ item ∈ items, element.LeavesOut item := by
  constructor
  · intro leaves
    cases leaves with
    | item member inside => exact ⟨_, member, inside⟩
  · intro leaves
    obtain ⟨item, member, inside⟩ := leaves
    exact .item member inside

theorem requiredPresent_full_iff :
    shape.requiredPresent entries .full = true ↔
      shape.requiredPresent entries .identifier = true ∧
        ¬ (object shape).LeavesOut (.object entries) := by
  constructor
  · intro complete
    refine ⟨requiredPresent_of_full complete, fun leaves => ?_⟩
    cases leaves with
    | field member required other missing =>
        have given := List.all_eq_true.mp complete _ member
        simp [required, missing] at given
  · intro given
    obtain ⟨partly, complete⟩ := given
    apply List.all_eq_true.mpr
    intro field member
    have held := List.all_eq_true.mp partly field member
    by_contra missing
    simp only [Bool.or_eq_true, not_or, Bool.not_eq_true] at missing
    have other : field.name ≠ "_id" := by simpa [missing.1.1, missing.1.2] using held
    exact complete (.field member missing.1.1 other missing.1.2)

/-- A complete value is one that gives the identifiers and leaves nothing else out. -/
theorem admits_full_iff : ∀ (schema : Schema) {value : Json} {nullable : Bool},
    schema.admits value nullable .full = true ↔
      schema.admits value nullable .identifier = true ∧ ¬ schema.LeavesOut value
  | scalar kind, value, nullable => by
      cases value <;> simp [not_leavesOut_scalar, admits, Json.conforms]
  | array element, value, nullable => by
      cases value with
      | array items =>
          have inside : ∀ item, element.admits item false .full = true ↔
              element.admits item false .identifier = true ∧ ¬ element.LeavesOut item :=
            fun item => admits_full_iff element
          simp only [admits_array_iff, leavesOut_array_iff, reduceCtorEq, false_and, false_or,
            Json.array.injEq, exists_eq_left', inside]
          simp [forall_and]
      | null => simp [not_leavesOut_null, admits, Json.conforms]
      | _ => simp [admits, Json.conforms]
  | object shape, value, nullable => by
      cases value with
      | object entries =>
          simp only [admits, Json.conforms, Bool.and_eq_true, requiredPresent_full_iff, and_assoc]
      | null => simp [not_leavesOut_null, admits, Json.conforms]
      | _ => simp [admits, Json.conforms]

end Schema

namespace UpdateOperator

def addition : UpdateOperator := ⟨"$push", .arrayOf .any, false, false, .push⟩

def inclusion : UpdateOperator := ⟨"$addToSet", .arrayOf .any, false, false, .addToSet⟩

def clearance : UpdateOperator := ⟨"$pullAll", .arrayOf .any, false, false, .pullAll⟩

theorem named?_addition : named? "$push" = some addition := rfl

theorem named?_inclusion : named? "$addToSet" = some inclusion := rfl

theorem named?_clearance : named? "$pullAll" = some clearance := rfl

theorem array_form {name : String} {operator : UpdateOperator}
    (known : named? name = some operator) (arrays : operator.capability = .arrayOf .any) :
    operator.allowPlaceholders = false ∧ operator.removesField = false ∧
      operator.payload ≠ .renameTarget ∧ operator.payload ≠ .insertValue := by
  have table : ∀ operator ∈ all, operator.capability = .arrayOf .any →
      operator.allowPlaceholders = false ∧ operator.removesField = false ∧
        operator.payload ≠ .renameTarget ∧ operator.payload ≠ .insertValue := by decide
  exact table operator (named?_eq_some known).1 arrays

end UpdateOperator

/-- A path leads to an array outside `_id`. -/
def LeadsToArray (config : Configuration) (root : Schema) (path : String) (place : Resolved)
    (element : Schema) : Prop :=
  resolveText root path config.resolveOptions = .ok place ∧ place.node = .array element ∧
    place.path.head? ≠ some "_id"

variable {config : Configuration} {root element : Schema} {path name : String}
  {operator : UpdateOperator} {payload : Json} {values : List Json} {target : UpdateTarget}
  {allowed : List String} {place : Resolved}

def Resolved.asUpdateTarget (place : Resolved) : UpdateTarget := ⟨place.path, place.arrival⟩

theorem LeadsToArray.element_eq (leads : LeadsToArray config root path place element) :
    place.asUpdateTarget.element = element :=
  UpdateTarget.element_of_array leads.2.1

theorem LeadsToArray.unique {again : Resolved} {other : Schema}
    (leads : LeadsToArray config root path place element)
    (leadsToo : LeadsToArray config root path again other) : element = other := by
  obtain ⟨resolves, array, _⟩ := leads
  obtain ⟨resolvesToo, arrayToo, _⟩ := leadsToo
  cases resolves.symm.trans resolvesToo
  cases array.symm.trans arrayToo
  rfl

/-- An operator on arrays is accepted exactly if it finds an array outside `_id` and its payload
suits the elements. -/
theorem single_array_eq_ok (known : UpdateOperator.named? name = some operator)
    (arrays : operator.capability = .arrayOf .any) :
    (Json.singleUpdate name (path, payload)).checkUpdate config root = .ok () ↔
      ∃ place element, LeadsToArray config root path place element ∧
        operator.payload.check config operator.name place.asUpdateTarget payload = .ok () := by
  obtain ⟨bare, keeps, writes, changes⟩ := UpdateOperator.array_form known arrays
  have options : ({ config.resolveOptions with allowPlaceholders := operator.allowPlaceholders } :
      ResolveOptions) = config.resolveOptions := by
    rw [bare]
    rfl
  constructor
  · intro accepted
    obtain ⟨again, same, targets, entry⟩ := single_eq_ok.mp accepted
    cases known.symm.trans same
    obtain ⟨steps, target, parsed, addressed, checked⟩ := entryTargets_eq_ok.mp entry
    obtain ⟨outside, resolves, admitted, _⟩ := checkTarget_eq_ok.mp addressed
    obtain ⟨place, reached, rfl⟩ := resolveTarget_eq_ok.mp resolves
    rw [options] at reached
    obtain ⟨_, _, _, goal, _, rfl⟩ := FieldPath.resolve_eq_ok_iff.mp reached
    have found : resolveText root path config.resolveOptions = .ok ⟨steps, goal, _⟩ :=
      bind_eq_ok.mpr ⟨steps, parsed, reached⟩
    rw [arrays, Capability.admits, Schema.any_element_iff] at admitted
    obtain ⟨element, array, _⟩ := admitted
    rw [if_neg writes] at checked
    exact ⟨_, element, ⟨found, array, fun identity => outside ⟨identity, changes⟩⟩, checked.1⟩
  · intro accepted
    obtain ⟨place, element, ⟨resolves, array, outside⟩, fits⟩ := accepted
    have admitted : operator.capability.admits place.node = true := by
      rw [arrays, Capability.admits, Schema.any_element_iff]
      exact ⟨element, array, rfl⟩
    rw [← options] at resolves
    exact (single_payload_eq_ok known keeps writes resolves outside admitted).mpr fits

theorem checkInsertion_each (listed : "$each" ∈ allowed) :
    checkInsertion config name allowed target (.object [("$each", .array values)]) = .ok () ↔
      ∀ value ∈ values,
        target.element.admits value false (Presence.suiting target.element) = true := by
  have marked : Text.startsWithDollar "$each" = true := by decide +kernel
  have modifies : checkInsertion config name allowed target (.object [("$each", .array values)]) =
      checkModifiers config name allowed target [("$each", .array values)] :=
    if_pos (by simp [hasOperatorKey, marked, Json.extendedKind?, Json.wrapperKind?])
  have position : checkIntegerModifier name [("$each", .array values)] "$position" = .ok () := rfl
  have slice : checkIntegerModifier name [("$each", .array values)] "$slice" = .ok () := rfl
  have unsorted : List.lookup "$sort" [("$each", Json.array values)] = none := rfl
  rw [modifies, checkModifiers_eq_ok]
  simp [listed, position, slice, unsorted]

def eachUpdate (name path : String) (values : List Json) : Json :=
  Json.singleUpdate name (path, .object [("$each", .array values)])

def pullAllUpdate (path : String) (values : List Json) : Json :=
  Json.singleUpdate "$pullAll" (path, .array values)

/-- A list of values suits an array with some presence of fields. -/
def SuitsArray (config : Configuration) (root : Schema) (path : String) (values : List Json)
    (presence : Schema → Presence) : Prop :=
  ∃ place element, LeadsToArray config root path place element ∧
    ∀ value ∈ values, element.admits value false (presence element) = true

/-- An update of an array is accepted for the lists that suit it, if its payload is read so. -/
theorem single_eq_ok_of_suits {presence : Schema → Presence}
    (known : UpdateOperator.named? name = some operator)
    (arrays : operator.capability = .arrayOf .any)
    (suits : ∀ target : UpdateTarget,
      operator.payload.check config operator.name target payload = .ok () ↔
        ∀ value ∈ values, target.element.admits value false (presence target.element) = true) :
    (Json.singleUpdate name (path, payload)).checkUpdate config root = .ok () ↔
      SuitsArray config root path values presence := by
  rw [single_array_eq_ok known arrays]
  apply exists_congr
  intro place
  apply exists_congr
  intro element
  apply and_congr_right
  intro leads
  rw [← leads.element_eq]
  exact suits place.asUpdateTarget

theorem push_eq_ok :
    (eachUpdate "$push" path values).checkUpdate config root = .ok () ↔
      SuitsArray config root path values Presence.suiting :=
  single_eq_ok_of_suits UpdateOperator.named?_addition rfl fun _ =>
    checkInsertion_each List.mem_cons_self

theorem addToSet_eq_ok :
    (eachUpdate "$addToSet" path values).checkUpdate config root = .ok () ↔
      SuitsArray config root path values Presence.suiting :=
  single_eq_ok_of_suits UpdateOperator.named?_inclusion rfl fun _ =>
    checkInsertion_each List.mem_cons_self

theorem pullAll_eq_ok :
    (pullAllUpdate path values).checkUpdate config root = .ok () ↔
      SuitsArray config root path values fun _ => .full :=
  single_eq_ok_of_suits UpdateOperator.named?_clearance rfl fun _ => expectAllConforming_eq_ok

/-- The same lists of values may be added to an array and included in it as in a set.  They may be
taken out as well, unless the elements are identifiable and one of the values leaves out more than
an added one has to give. -/
theorem arrayUpdates_agree_iff (config : Configuration) (root : Schema) (path : String)
    (values : List Json) :
    ((eachUpdate "$push" path values).checkUpdate config root = .ok () ↔
      SuitsArray config root path values Presence.suiting) ∧
    ((eachUpdate "$addToSet" path values).checkUpdate config root = .ok () ↔
      (eachUpdate "$push" path values).checkUpdate config root = .ok ()) ∧
    ((pullAllUpdate path values).checkUpdate config root = .ok () ↔
      (eachUpdate "$push" path values).checkUpdate config root = .ok () ∧
        ∀ place element, LeadsToArray config root path place element →
          Presence.suiting element = .identifier →
            ∀ value ∈ values, ¬ element.LeavesOut value) := by
  refine ⟨push_eq_ok, addToSet_eq_ok.trans push_eq_ok.symm, ?_⟩
  rw [push_eq_ok, pullAll_eq_ok]
  constructor
  · intro suits
    obtain ⟨place, element, leads, each⟩ := suits
    refine ⟨⟨place, element, leads, fun value member => ?_⟩, ?_⟩
    · exact Schema.admits_of_full element (each value member)
    · intro again other leadsToo _ value member
      obtain rfl := leads.unique leadsToo
      exact (element.admits_full_iff.mp (each value member)).2
  · intro suits
    obtain ⟨⟨place, element, leads, each⟩, complete⟩ := suits
    refine ⟨place, element, leads, fun value member => ?_⟩
    have given := each value member
    cases suiting : Presence.suiting element with
    | full =>
        rw [suiting] at given
        exact given
    | identifier =>
        rw [suiting] at given
        exact element.admits_full_iff.mpr
          ⟨given, complete place element leads suiting value member⟩

def crewRole : Schema := closedObject [("_id", .string), ("title", .string)]

def crews : Schema := closedObject [("watches", .array (.array crewRole))]

/-- Roles known by their identifiers are added to the watches of a crew, but not taken out. -/
theorem arrayUpdates_agree_iff_crews :
    (eachUpdate "$push" "watches" [.array [.object [("_id", .string "r1")]]]).checkUpdate {} crews =
      .ok () ∧
    (pullAllUpdate "watches" [.array [.object [("_id", .string "r1")]]]).checkUpdate {} crews ≠
      .ok () := by
  obtain ⟨added, _, removed⟩ := arrayUpdates_agree_iff {} crews "watches"
    [.array [.object [("_id", .string "r1")]]]
  have leads : LeadsToArray {} crews "watches"
      ⟨.ofNames ["watches"], { node := .array (.array crewRole) }, false⟩ (.array crewRole) :=
    ⟨rfl, rfl, by decide⟩
  have leavesTitle : crewRole.LeavesOut (.object [("_id", .string "r1")]) :=
    .field (List.mem_cons_of_mem _ List.mem_cons_self) rfl (by decide) rfl
  refine ⟨added.mpr ⟨_, _, leads, by decide +kernel⟩, fun accepted => ?_⟩
  have complete := (removed.mp accepted).2 _ _ leads (by decide +kernel)
  exact complete _ List.mem_cons_self (.item List.mem_cons_self leavesTitle)

end DocTyping
