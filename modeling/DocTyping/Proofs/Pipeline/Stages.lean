import DocTyping.Pipeline.Replay
import DocTyping.Proofs.Checked
import DocTyping.Proofs.Json.DistinctKeys
import DocTyping.Proofs.Path.Names

namespace DocTyping

/-!
# Added stages

An accepted stage stands at the end of the pipeline as it was stated, and all
that it changes besides is the schema.
-/

namespace Json

theorem int64?_eq_some_iff {value : Json} {integer : Int} :
    value.int64? = some integer ↔
      value = .ofInt integer ∧ Number.int64Min ≤ integer ∧ integer ≤ Number.int64Max := by
  constructor
  · intro read
    cases value with
    | number form =>
        cases form with
        | integer held =>
            simp only [int64?, number?, Option.bind_some, Number.int64?] at read
            split at read
            · rename_i bounds
              simp only [Option.some.injEq] at read
              subst held
              exact ⟨rfl, bounds⟩
            · contradiction
        | real held => simp [int64?, number?, Number.int64?] at read
    | _ => simp [int64?, number?] at read
  · rintro ⟨rfl, bounds⟩
    simp [int64?, number?, ofInt, Number.int64?, bounds]

end Json

theorem integerArgument_eq_ok {stage : String} {value : Json} {integer : Int}
    (read : integerArgument stage value = .ok integer) : value.int64? = some integer := by
  unfold integerArgument at read
  split at read
  · rename_i found
    cases read
    exact found
  · contradiction

namespace Pipeline

variable {pipeline next : Pipeline} {stage : Stage} {name : String} {arguments : Json}

/-- A pipeline has one stage more than another, and differs from it in nothing but the schema
besides. -/
def Adds (pipeline : Pipeline) (stage : Stage) (next : Pipeline) : Prop :=
  ∃ schema, next = pipeline.append stage.name stage.arguments schema

theorem Adds.stages (added : pipeline.Adds stage next) :
    next.stages = pipeline.stages ++ [stage] := by
  obtain ⟨schema, rfl⟩ := added
  rfl

/-- A pipeline has one stage more than another, of a name, whatever its arguments are kept as. -/
def Grows (pipeline : Pipeline) (name : String) (next : Pipeline) : Prop :=
  ∃ arguments, pipeline.Adds ⟨name, arguments⟩ next

theorem lift_eq_ok {α : Type} {checked : Checked α} {value : α} :
    pipeline.lift name checked = .ok value ↔ checked = .ok value :=
  mapError_eq_ok

theorem reshape_eq_ok {derived : Checked Schema} :
    pipeline.reshape name arguments derived = .ok next ↔
      ∃ schema, derived = .ok schema ∧ pipeline.append name arguments schema = next := by
  simp only [reshape, bind_eq_ok, lift_eq_ok, pure_eq_ok]

theorem pass_eq_ok {checked : Checked Unit} :
    pipeline.pass name arguments checked = .ok next ↔
      checked = .ok () ∧ pipeline.append name arguments pipeline.schema = next := by
  simp only [pass, bind_eq_ok, lift_eq_ok, pure_eq_ok]
  constructor
  · rintro ⟨⟨⟩, accepted, added⟩
    exact ⟨accepted, added⟩
  · rintro ⟨accepted, added⟩
    exact ⟨(), accepted, added⟩

theorem adds_of_reshape {derived : Checked Schema}
    (reshaped : pipeline.reshape name arguments derived = .ok next) :
    pipeline.Adds ⟨name, arguments⟩ next := by
  obtain ⟨schema, _, added⟩ := reshape_eq_ok.mp reshaped
  exact ⟨schema, added.symm⟩

theorem adds_of_pass {checked : Checked Unit}
    (passed : pipeline.pass name arguments checked = .ok next) :
    pipeline.Adds ⟨name, arguments⟩ next :=
  ⟨pipeline.schema, (pass_eq_ok.mp passed).2.symm⟩

/-- An object whose keys are distinct has no entry besides its only argument. -/
theorem onlyArgument_eq_ok {key : String} {value : Json}
    (distinct : arguments.KeysDistinct) (read : onlyArgument name key arguments = .ok value)
    (given : value ≠ .null) : arguments = .object [(key, value)] := by
  simp only [onlyArgument, bind_eq_ok, pure_eq_ok, checkKnown_eq_ok] at read
  obtain ⟨entries, isObject, _, known, found⟩ := read
  cases arguments with
  | object held =>
      cases isObject
      obtain ⟨nodup, _⟩ := Json.keysDistinct_object_iff.mp distinct
      have only : ∀ entry ∈ entries, entry.1 = key := by simpa using known
      rcases Keyed.eq_of_names_subset_singleton nodup only with rfl | ⟨item, rfl⟩
      · exact absurd found.symm given
      · simp only [Keyed.get?, List.lookup_cons_self, Option.getD_some] at found
        rw [found]
  | _ => cases isObject

theorem onlyInteger_eq_ok {key : String} {integer : Int} (distinct : arguments.KeysDistinct)
    (read : onlyInteger name key arguments = .ok integer) :
    arguments = .object [(key, .ofInt integer)] := by
  simp only [onlyInteger, bind_eq_ok] at read
  obtain ⟨value, only, isInteger⟩ := read
  obtain ⟨rfl, _⟩ := Json.int64?_eq_some_iff.mp (integerArgument_eq_ok isInteger)
  exact onlyArgument_eq_ok distinct only (by simp [Json.ofInt])

theorem replaceRoot_not_null {expression : Json} {declared : Option Schema}
    (replaced : pipeline.replaceRoot expression declared = .ok next) : expression ≠ .null := by
  obtain ⟨schema, derived, _⟩ := reshape_eq_ok.mp replaced
  simp only [Pipeline.replaced, bind_eq_ok, demand_eq_ok] at derived
  rintro rfl
  simp [Json.isNull] at derived

/-- The stages whose arguments are taken apart are the ones to look at: every other stage passes
its arguments on. -/
theorem extendFlat_states (extended : pipeline.extendFlat name arguments = .ok next) :
    ∃ stated, pipeline.Adds ⟨name, stated⟩ next ∧
      (arguments.KeysDistinct → stated = arguments) := by
  unfold extendFlat at extended
  split at extended
  case h_2 =>
    obtain ⟨size, read, added⟩ := bind_eq_ok.mp extended
    exact ⟨_, adds_of_pass added,
      fun distinct => (onlyInteger_eq_ok distinct (lift_eq_ok.mp read)).symm⟩
  case h_3 | h_4 =>
    obtain ⟨count, read, added⟩ := bind_eq_ok.mp extended
    obtain ⟨rfl, _⟩ := Json.int64?_eq_some_iff.mp (integerArgument_eq_ok (lift_eq_ok.mp read))
    exact ⟨_, adds_of_pass added, fun _ => rfl⟩
  case h_12 =>
    split at extended
    · exact ⟨_, adds_of_reshape extended, fun _ => rfl⟩
    · contradiction
  case h_15 =>
    obtain ⟨expression, read, replaced⟩ := bind_eq_ok.mp extended
    refine ⟨_, adds_of_reshape replaced, fun distinct => ?_⟩
    exact (onlyArgument_eq_ok distinct (lift_eq_ok.mp read) (replaceRoot_not_null replaced)).symm
  case h_24 | h_25 | h_26 => contradiction
  all_goals first
    | exact ⟨_, adds_of_pass extended, fun _ => rfl⟩
    | exact ⟨_, adds_of_reshape extended, fun _ => rfl⟩

theorem extendFlat_adds (distinct : arguments.KeysDistinct)
    (extended : pipeline.extendFlat name arguments = .ok next) :
    pipeline.Adds ⟨name, arguments⟩ next := by
  obtain ⟨stated, added, same⟩ := extendFlat_states extended
  exact same distinct ▸ added

section Branches

variable {seen : List String} {branches : List (String × Pipeline)} {branch : Pipeline}
  {result : Unit} {schema : Schema}

theorem checkBranch_eq_ok :
    checkBranch seen name branch = .ok result ↔
      (NameFlaw.of? name = none ∧ ∀ stage ∈ branch.stages, stage.name ∉ branchExclusions) ∧
        name ∉ seen := by
  simp only [checkBranch, unit_bind_eq_ok, checkFieldName_eq_ok, demand_eq_ok, and_assoc]
  refine and_congr_right fun _ => ?_
  rw [and_comm]
  refine and_congr ?_ (by simp)
  cases search : branch.stages.find? fun stage => branchExclusions.contains stage.name with
  | some stage =>
      have excluded : stage.name ∈ branchExclusions := by simpa using List.find?_some search
      simp only [reduceCtorEq, false_iff]
      exact fun allowed => allowed stage (List.mem_of_find?_eq_some search) excluded
  | none => simpa [pure, Except.pure] using search

/-- Branches are accepted exactly if each is accepted apart from the others and their names are
distinct. -/
theorem checkBranches_eq_ok :
    checkBranches seen branches = .ok result ↔
      (∀ branch ∈ branches, NameFlaw.of? branch.1 = none ∧
        ∀ stage ∈ branch.2.stages, stage.name ∉ branchExclusions) ∧
      (Keyed.names branches).Nodup ∧ ∀ name ∈ Keyed.names branches, name ∉ seen := by
  induction branches generalizing seen with
  | nil => simp [checkBranches]
  | cons entry rest ih =>
      obtain ⟨name, branch⟩ := entry
      have apart : (∀ other ∈ Keyed.names rest, other ∉ name :: seen) ↔
          name ∉ Keyed.names rest ∧ ∀ other ∈ Keyed.names rest, other ∉ seen := by
        simp only [List.mem_cons, not_or, forall_and]
        exact and_congr_left fun _ => List.forall_mem_ne'
      rw [checkBranches, unit_bind_eq_ok, checkBranch_eq_ok, ih, apart, List.forall_mem_cons,
        Keyed.names_cons, List.nodup_cons, List.forall_mem_cons]
      tauto

theorem faceted_eq_ok :
    faceted branches = .ok schema ↔
      branches ≠ [] ∧
        (∀ branch ∈ branches, NameFlaw.of? branch.1 = none ∧
          ∀ stage ∈ branch.2.stages, stage.name ∉ branchExclusions) ∧
        (Keyed.names branches).Nodup ∧
          .record (branches.map fun branch => (branch.1, .array branch.2.schema)) = schema := by
  simp only [faceted, unit_bind_eq_ok, demand_eq_ok, checkBranches_eq_ok, pure_eq_ok, and_assoc]
  simp

/-- A facet keeps its branches as they are, since their names are distinct. -/
theorem facet_eq_ok :
    pipeline.facet branches = .ok next ↔
      branches ≠ [] ∧
        (∀ branch ∈ branches, NameFlaw.of? branch.1 = none ∧
          ∀ stage ∈ branch.2.stages, stage.name ∉ branchExclusions) ∧
        (Keyed.names branches).Nodup ∧
          pipeline.append "$facet"
            (.object (branches.map fun branch => (branch.1, branch.2.toJson)))
            (.record (branches.map fun branch => (branch.1, .array branch.2.schema))) = next := by
  have kept (distinct : (Keyed.names branches).Nodup) :
      Keyed.ofList (branches.map fun branch => (branch.1, branch.2.toJson)) =
        branches.map fun branch => (branch.1, branch.2.toJson) :=
    Keyed.ofList_of_nodup (by simpa [Keyed.names, Function.comp_def] using distinct)
  simp only [facet, reshape_eq_ok, faceted_eq_ok]
  constructor
  · intro accepted
    obtain ⟨_, ⟨filled, each, distinct, rfl⟩, added⟩ := accepted
    exact ⟨filled, each, distinct, kept distinct ▸ added⟩
  · intro accepted
    obtain ⟨filled, each, distinct, added⟩ := accepted
    exact ⟨_, ⟨filled, each, distinct, rfl⟩, (kept distinct).symm ▸ added⟩

theorem facet_adds (accepted : pipeline.facet branches = .ok next) :
    pipeline.Adds
      ⟨"$facet", .object (branches.map fun branch => (branch.1, branch.2.toJson))⟩ next := by
  obtain ⟨_, _, _, rfl⟩ := facet_eq_ok.mp accepted
  exact ⟨_, rfl⟩

end Branches

end Pipeline

end DocTyping
