import DocTyping.Proofs.Pipeline.Derivations
import DocTyping.Proofs.Schema.Reshaping

namespace DocTyping

/-!
# Names along a pipeline

If names fit together in the schema that flows into a list of stages and in the
collections beside it, they do so in the schema that flows out, as long as the
expressions that the stages evaluate give no others.
-/

namespace Keyed

variable {α : Type} {fits : List String → Prop} {entries : Keyed α} {name : String}

theorem names_put_fit (rule : NameRule fits) (value : α) (all : fits entries.names)
    (added : fits [name]) : fits (entries.put name value).names := by
  by_cases member : name ∈ entries.names
  · rwa [names_put_of_mem value member]
  · rw [put_of_new value member, names_append]
    exact rule.union (List.disjoint_singleton.mpr member) all added

end Keyed

namespace Kept

inductive NamesFit (fits : List String → Prop) : Kept → Prop
  | field : NamesFit fits field
  | computed {type : Schema} (inside : type.NamesFit fits) : NamesFit fits (computed type)
  | nested {children : List (String × Kept)} (names : fits (Keyed.names children))
      (each : ∀ entry ∈ children, NamesFit fits entry.2) : NamesFit fits (nested children)

variable {fits : List String → Prop} {leaf : Kept} {names : List String} {tree : Keyed Kept}
  {shape : Option (Shape Schema)} {name : String} {kept : Kept}

theorem namesFit_nested_iff :
    (nested tree).NamesFit fits ↔
      fits (Keyed.names tree) ∧ ∀ entry ∈ tree, entry.2.NamesFit fits :=
  ⟨fun | .nested names each => ⟨names, each⟩, fun ⟨names, each⟩ => .nested names each⟩

section Planting

variable (rule : NameRule fits)

include rule

theorem put_namesFit (fit : (nested tree).NamesFit fits) (named : fits [name])
    (inside : kept.NamesFit fits) : (nested (tree.put name kept)).NamesFit fits := by
  obtain ⟨names, each⟩ := namesFit_nested_iff.mp fit
  refine .nested (Keyed.names_put_fit rule kept names named) fun entry member => ?_
  rcases Keyed.mem_put member with held | written
  · exact each entry held
  · rwa [written]

theorem plant_namesFit (leafFit : leaf.NamesFit fits) (each : ∀ name ∈ names, fits [name])
    (fit : (nested tree).NamesFit fits) : (nested (plant leaf names tree)).NamesFit fits := by
  induction names generalizing tree with
  | nil => exact fit
  | cons name rest ih =>
      obtain ⟨named, later⟩ := List.forall_mem_cons.mp each
      cases rest with
      | nil => exact put_namesFit rule fit named leafFit
      | cons =>
          simp only [plant]
          split
          · exact put_namesFit rule fit named (ih later (.nested rule.nil (by simp)))
          · rename_i children found
            have inside := (namesFit_nested_iff.mp fit).2 _ (Keyed.mem_of_lookup found)
            exact put_namesFit rule fit named (ih later inside)
          · exact fit

end Planting

theorem fields_eq_map :
    fields shape tree = tree.map fun entry => fieldOf shape entry.1 entry.2 := by
  induction tree with
  | nil => rfl
  | cons entry rest ih => rw [fields, ih, List.map_cons]

theorem name_fieldOf : (fieldOf shape name kept).name = name := by
  cases kept with
  | computed type => rfl
  | _ =>
      simp only [fieldOf]
      split <;> rfl

theorem object_fields_namesFit (named : fits (Keyed.names tree))
    (each : ∀ entry ∈ tree, (fieldOf shape entry.1 entry.2).node.NamesFit fits) :
    (Schema.object ⟨fields shape tree, none⟩).NamesFit fits := by
  rw [fields_eq_map]
  refine .object ?_ (List.forall_mem_map.mpr each) (by simp)
  simpa [Shape.names, Keyed.names, Function.comp_def, name_fieldOf] using named

/-- The object from which fields are kept, if there is one, has names that fit together. -/
def SourceFits (fits : List String → Prop) (shape : Option (Shape Schema)) : Prop :=
  ∀ held ∈ shape, (Schema.object held).NamesFit fits

theorem sourceFits_shape? {node : Schema} (fit : node.NamesFit fits) :
    SourceFits fits node.shape? := by
  intro held present
  cases node with
  | object shape =>
      cases present
      exact fit
  | _ => contradiction

theorem SourceFits.child {child : Schema} (source : SourceFits fits shape)
    (found : (shape.bind fun shape => shape.child? name) = some child) : child.NamesFit fits := by
  obtain ⟨held, present, reached⟩ := Option.bind_eq_some_iff.mp found
  exact (source held present).child reached

theorem fieldOf_namesFit (rule : NameRule fits) (fit : kept.NamesFit fits)
    (source : SourceFits fits shape) : (fieldOf shape name kept).node.NamesFit fits := by
  induction fit generalizing shape name with
  | field =>
      simp only [fieldOf]
      split
      · rename_i child found
        exact source.child found
      · exact .scalar _
  | computed inside => exact inside
  | nested names _ each =>
      simp only [fieldOf]
      split
      · rename_i child found
        refine Schema.underArrays_namesFit (fun node nodeFit => ?_) (source.child found)
        exact object_fields_namesFit names fun entry member =>
          each entry member (sourceFits_shape? nodeFit)
      · refine object_fields_namesFit names fun entry member => each entry member ?_
        exact sourceFits_shape? (Schema.empty_namesFit rule)

theorem apply_namesFit (rule : NameRule fits) {source : Schema}
    (fit : (nested tree).NamesFit fits) (sourceFit : source.NamesFit fits) :
    (apply tree source).NamesFit fits := by
  obtain ⟨names, each⟩ := namesFit_nested_iff.mp fit
  refine Schema.underArrays_namesFit (fun node nodeFit => ?_) sourceFit
  exact object_fields_namesFit names fun entry member =>
    fieldOf_namesFit rule (each entry member) (sourceFits_shape? nodeFit)

end Kept

namespace Schema

variable {fits : List String → Prop} (rule : NameRule fits)

include rule

theorem record_namesFit {fields : List (String × Schema)} (named : ∀ field ∈ fields, fits [field.1])
    (each : ∀ field ∈ fields, field.2.NamesFit fits) : (record fields).NamesFit fits := by
  have grown : ∀ shape : Shape Schema, (object shape).NamesFit fits →
      (object (fields.foldl (fun shape field => shape.insert field.1 field.2 false) shape)).NamesFit
        fits := by
    induction fields with
    | nil => exact fun shape fit => fit
    | cons field rest ih =>
        intro shape fit
        obtain ⟨head, tail⟩ := List.forall_mem_cons.mp named
        obtain ⟨first, others⟩ := List.forall_mem_cons.mp each
        exact ih tail others _ (put_namesFit rule fit head first)
  exact grown _ (empty_namesFit rule)

theorem unifyDocuments_namesFit {types : List Schema} (each : ∀ type ∈ types, type.NamesFit fits) :
    (unifyDocuments types).NamesFit fits := by
  cases types with
  | nil => exact empty_namesFit rule
  | cons first rest => exact unifyAll_namesFit rule each

end Schema

namespace Pipeline

/-- In the schema of a pipeline, in the collections beside it and in its variables, names fit
together. -/
structure NamesFit (fits : List String → Prop) (pipeline : Pipeline) : Prop where
  schema : pipeline.schema.NamesFit fits
  collections : ∀ catalog ∈ pipeline.catalog, ∀ entry ∈ catalog.collections,
    entry.2.NamesFit fits
  bindings : ∀ entry ∈ pipeline.bindings, entry.2.NamesFit fits

variable {fits : List String → Prop} {holds states : Json → Prop} {pipeline next : Pipeline}
  {value : Json} {schema type : Schema} {name : String}
  {entries : List (String × Json)} {stage : Stage}

theorem NamesFit.scope (fit : pipeline.NamesFit fits) : pipeline.scope.NamesFit fits :=
  ⟨fit.schema, fit.bindings⟩

theorem NamesFit.reshaped (fit : pipeline.NamesFit fits) (added : pipeline.Adds stage next)
    (schema : next.schema.NamesFit fits) : next.NamesFit fits := by
  obtain ⟨_, rfl⟩ := added
  exact ⟨schema, fit.collections, fit.bindings⟩

theorem NamesFit.seed (fit : pipeline.NamesFit fits) (inside : schema.NamesFit fits) :
    (pipeline.seed schema).NamesFit fits :=
  ⟨inside, fit.collections, fit.bindings⟩

theorem NamesFit.bindAll {added : Bindings} (fit : pipeline.NamesFit fits)
    (each : ∀ entry ∈ added, entry.2.NamesFit fits) : (pipeline.bindAll added).NamesFit fits := by
  refine ⟨fit.schema, fit.collections, fun entry member => ?_⟩
  rcases List.mem_append.mp member with new | held
  · exact each entry (List.mem_reverse.mp new)
  · exact fit.bindings entry held

theorem NamesFit.foreign {collection : String} (fit : pipeline.NamesFit fits)
    (found : pipeline.foreign collection = .ok schema) : schema.NamesFit fits := by
  unfold Pipeline.foreign at found
  split at found
  · rename_i catalog beside
    unfold Catalog.get at found
    split at found
    · rename_i root listed
      cases found
      exact fit.collections catalog beside _ (Keyed.mem_of_lookup listed)
    · cases found
  · contradiction

section Stages

variable (rule : NameRule fits) (source : NameSource fits holds)

include rule source

theorem Gives.namesFit (given : pipeline.Gives states type) (fit : pipeline.NamesFit fits)
    (stated : ∀ expression, states expression → holds expression) : type.NamesFit fits := by
  induction given with
  | scalar kind => exact .scalar kind
  | inferred states typed =>
      exact (Json.hasType_of_infer typed).namesFit rule source fit.scope (stated _ states)
  | array _ ih => exact .array ih

theorem Edits.namesFit {before : Schema} (edits : pipeline.Edits states before schema)
    (fit : pipeline.NamesFit fits) (stated : ∀ expression, states expression → holds expression)
    (inside : before.NamesFit fits) : schema.NamesFit fits := by
  cases edits with
  | written _ _ _ flawless given =>
      exact Schema.setPath_namesFit rule (given.namesFit rule source fit stated)
        (rule.sounds flawless) inside
  | removed => exact Schema.removePath_namesFit rule inside
  | unwound _ _ _ flawless =>
      exact Schema.unwindPath_namesFit rule (rule.sounds flawless) inside

theorem Selects.namesFit {tree : Keyed Kept} (selects : pipeline.Selects states tree)
    (fit : pipeline.NamesFit fits) (stated : ∀ expression, states expression → holds expression) :
    (Kept.nested tree).NamesFit fits := by
  induction selects with
  | nothing => exact .nested rule.nil (by simp)
  | field _ flawless ih =>
      exact Kept.plant_namesFit rule .field (rule.sounds flawless) ih
  | computed _ flawless given ih =>
      exact Kept.plant_namesFit rule (.computed (given.namesFit rule source fit stated))
        (rule.sounds flawless) ih

theorem Derives.namesFit (derives : pipeline.Derives states schema)
    (fit : pipeline.NamesFit fits) (stated : ∀ expression, states expression → holds expression) :
    schema.NamesFit fits := by
  cases derives with
  | edited edits =>
      induction edits with
      | refl => exact fit.schema
      | tail _ edit ih => exact edit.namesFit rule source fit stated ih
  | selected selects =>
      exact Kept.apply_namesFit rule (selects.namesFit rule source fit stated) fit.schema
  | recorded flawless given =>
      exact Schema.record_namesFit rule (fun field member => rule.sound (flawless field member))
        fun field member => (given field member).namesFit rule source fit stated
  | replaced given => exact given.namesFit rule source fit stated
  | unknown => exact openObject_namesFit rule
  | stated states accepted =>
      refine Schema.unifyDocuments_namesFit rule (List.forall_mem_map.mpr fun document member => ?_)
      have scope : (literalScope pipeline.config).NamesFit fits :=
        ⟨Schema.empty_namesFit rule, by simp [literalScope, Scope.ofRoot]⟩
      exact (Json.hasType_of_infer (accepted document member).2.1).namesFit rule source scope
        (stated _ (states document member))

theorem inferBindings_namesFit {bindings : Bindings}
    (accepted : pipeline.inferBindings name entries = .ok bindings) (fit : pipeline.NamesFit fits)
    (stated : ∀ entry ∈ entries, holds entry.2) : ∀ entry ∈ bindings, entry.2.NamesFit fits := by
  induction entries generalizing bindings with
  | nil =>
      cases accepted
      simp
  | cons entry rest ih =>
      obtain ⟨key, value⟩ := entry
      obtain ⟨head, tail⟩ := List.forall_mem_cons.mp stated
      simp only [inferBindings] at accepted
      split at accepted
      · simp only [bind_eq_ok, pure_eq_ok] at accepted
        obtain ⟨type, typed, others, later, rfl⟩ := accepted
        have first := (Json.hasType_of_infer typed).namesFit rule source fit.scope head
        exact List.forall_mem_cons.mpr ⟨first, ih later tail⟩
      · contradiction

theorem letBindings_namesFit {bindings : Bindings}
    (accepted : pipeline.letBindings name entries = .ok bindings) (fit : pipeline.NamesFit fits)
    (stated : ∀ vars, entries.lookup "let" = some (.object vars) → ∀ entry ∈ vars, holds entry.2) :
    ∀ entry ∈ bindings, entry.2.NamesFit fits := by
  unfold letBindings at accepted
  split at accepted
  · rename_i found
    simp only [bind_eq_ok, objectArgument_eq_ok] at accepted
    obtain ⟨vars, rfl, accepted⟩ := accepted
    exact inferBindings_namesFit rule source accepted fit (stated vars found)
  · cases accepted
    simp

theorem joinSeed_namesFit {join : Join} {seed : Pipeline}
    (accepted : pipeline.joinSeed join entries = .ok seed) (fit : pipeline.NamesFit fits)
    (foreign : join.foreign.NamesFit fits)
    (stated : ∀ vars, entries.lookup "let" = some (.object vars) → ∀ entry ∈ vars, holds entry.2) :
    seed.NamesFit fits := by
  unfold joinSeed at accepted
  dsimp only at accepted
  split at accepted
  · obtain ⟨bindings, bound, made⟩ := bind_eq_ok.mp accepted
    cases made
    exact (fit.seed foreign).bindAll (letBindings_namesFit rule source bound fit stated)
  · split at accepted
    · contradiction
    · split at accepted
      · cases accepted
        exact fit.seed foreign
      · contradiction

end Stages

mutual

theorem replay_namesFit (rule : NameRule fits) (source : NameSource fits holds)
    (documents : List Json) {pipeline : Pipeline} {replayed : Replay}
    (fit : pipeline.NamesFit fits) (only : EvaluateOnly holds documents)
    (accepted : pipeline.replay documents = .ok replayed) : replayed.pipeline.NamesFit fits := by
  match documents with
  | [] =>
      cases accepted
      exact fit
  | document :: rest =>
      have head : EvaluateOnly holds [document] := only.among (by simp)
      have tail : EvaluateOnly holds rest := only.among (List.subset_cons_self document rest)
      rcases replay_cons_eq_ok.mp accepted with
        ⟨next, extended, continued⟩ | ⟨_, stage, _, _, rfl⟩
      · have reached := extend_namesFit rule source document fit head extended
        exact replay_namesFit rule source rest reached tail continued
      · exact fit

theorem extend_namesFit (rule : NameRule fits) (source : NameSource fits holds)
    (document : Json) {pipeline next : Pipeline}
    (fit : pipeline.NamesFit fits) (only : EvaluateOnly holds [document])
    (accepted : pipeline.extend document = .ok next) : next.NamesFit fits := by
  match document with
  | .object [(name, arguments)] =>
      unfold extend at accepted
      obtain ⟨_, _, accepted⟩ := bind_eq_ok.mp accepted
      split at accepted
      · exact facetOf_namesFit rule source arguments fit only accepted
      · exact lookup_namesFit rule source arguments fit only accepted
      · refine fit.reshaped (unionWith_adds accepted) ?_
        rw [schema_of_unionWith accepted]
        exact fit.schema
      · obtain ⟨_, added, _⟩ := extendFlat_states accepted
        refine fit.reshaped added ?_
        exact (derives_of_extendFlat accepted).namesFit rule source fit fun _ => only.stage
  | .object [] | .object (_ :: _ :: _) => contradiction
  | .null | .bool _ | .number _ | .string _ | .array _ => contradiction

theorem facetOf_namesFit (rule : NameRule fits) (source : NameSource fits holds)
    (arguments : Json) {pipeline next : Pipeline}
    (fit : pipeline.NamesFit fits) (only : EvaluateOnly holds [.object [("$facet", arguments)]])
    (accepted : pipeline.facetOf arguments = .ok next) : next.NamesFit fits := by
  match arguments with
  | .object entries =>
      obtain ⟨_, added⟩ := facetOf_grows accepted
      obtain ⟨_, branches, same, replayed, flawless, derived⟩ := record_of_facetOf accepted
      cases same
      have inside : ∀ entry ∈ entries, ∀ inner, entry.2 = .array inner →
          EvaluateOnly holds inner := by
        intro entry member inner same
        obtain ⟨name, stages⟩ := entry
        cases same
        exact only.nested (.branch List.mem_cons_self member)
      have each := replayBranches_namesFit rule source entries fit inside replayed
      refine fit.reshaped added ?_
      rw [derived]
      refine Schema.record_namesFit rule ?_ ?_
      · exact List.forall_mem_map.mpr fun branch member => rule.sound (flawless branch member)
      · exact List.forall_mem_map.mpr fun branch member => .array (each branch member).schema
  | .null | .bool _ | .number _ | .string _ | .array _ => contradiction

theorem replayBranches_namesFit (rule : NameRule fits) (source : NameSource fits holds)
    (entries : List (String × Json)) {pipeline : Pipeline}
    {branches : List (String × Pipeline)} (fit : pipeline.NamesFit fits)
    (only : ∀ entry ∈ entries, ∀ inner, entry.2 = .array inner → EvaluateOnly holds inner)
    (accepted : pipeline.replayBranches entries = .ok branches) :
    ∀ branch ∈ branches, branch.2.NamesFit fits := by
  match entries with
  | [] =>
      cases accepted
      simp
  | (name, stages) :: rest =>
      obtain ⟨head, tail⟩ := List.forall_mem_cons.mp only
      simp only [replayBranches, bind_eq_ok, pure_eq_ok] at accepted
      obtain ⟨branch, first, others, later, rfl⟩ := accepted
      exact List.forall_mem_cons.mpr ⟨replayBranch_namesFit rule source stages fit head first,
        replayBranches_namesFit rule source rest fit tail later⟩

theorem replayBranch_namesFit (rule : NameRule fits) (source : NameSource fits holds)
    (stages : Json) {pipeline branch : Pipeline} {name : String}
    (fit : pipeline.NamesFit fits)
    (only : ∀ inner, stages = .array inner → EvaluateOnly holds inner)
    (accepted : pipeline.replayBranch name stages = .ok branch) : branch.NamesFit fits := by
  match stages with
  | .array documents =>
      obtain ⟨result, replays, kept⟩ := bind_eq_ok.mp accepted
      rw [withoutTerminal_eq_ok kept] at replays
      exact replay_namesFit rule source documents (fit.seed fit.schema) (only documents rfl) replays
  | .null | .bool _ | .number _ | .string _ | .object _ => contradiction

theorem lookup_namesFit (rule : NameRule fits) (source : NameSource fits holds)
    (arguments : Json) {pipeline next : Pipeline}
    (fit : pipeline.NamesFit fits) (only : EvaluateOnly holds [.object [("$lookup", arguments)]])
    (accepted : pipeline.lookup arguments = .ok next) : next.NamesFit fits := by
  match arguments with
  | .object entries =>
      refine fit.reshaped (lookup_adds accepted) ?_
      obtain ⟨_, join, seed, joined, same, read, seeds, replays, derived⟩ :=
        attach_of_lookup accepted
      cases same
      obtain ⟨_, flawless, _, found⟩ := readJoin_eq_ok read
      have bound : ∀ vars, entries.lookup "let" = some (.object vars) →
          ∀ entry ∈ vars, holds entry.2 :=
        fun vars stated entry member => only.stage (.variable stated member)
      have seeded := joinSeed_namesFit rule source seeds fit (fit.foreign found) bound
      have inside : ∀ inner, entries.lookup "pipeline" = some (.array inner) →
          EvaluateOnly holds inner :=
        fun inner stated => only.nested (.joined List.mem_cons_self stated)
      have reached := replayUnder_namesFit rule source entries seeded inside replays
      rw [derived]
      exact Schema.setPath_namesFit rule (.array reached.schema) (rule.sounds flawless) fit.schema
  | .null | .bool _ | .number _ | .string _ | .array _ => contradiction

theorem replayUnder_namesFit (rule : NameRule fits) (source : NameSource fits holds)
    (entries : List (String × Json)) {pipeline seed reached : Pipeline}
    {name : String} (fit : seed.NamesFit fits)
    (only : ∀ inner, entries.lookup "pipeline" = some (.array inner) → EvaluateOnly holds inner)
    (accepted : pipeline.replayUnder name seed entries = .ok reached) : reached.NamesFit fits := by
  match entries with
  | [] =>
      cases accepted
      exact fit
  | (key, value) :: rest =>
      unfold replayUnder at accepted
      split at accepted
      · rename_i here
        subst here
        have stated : ∀ inner, value = .array inner → EvaluateOnly holds inner := by
          intro inner same
          apply only
          rw [same, List.lookup_cons_self]
        exact replayNested_namesFit rule source value fit stated accepted
      · rename_i later
        have stated : ∀ inner, rest.lookup "pipeline" = some (.array inner) →
            EvaluateOnly holds inner := by
          intro inner found
          apply only
          rw [Keyed.lookup_cons_of_ne later, found]
        exact replayUnder_namesFit rule source rest fit stated accepted

theorem replayNested_namesFit (rule : NameRule fits) (source : NameSource fits holds)
    (value : Json) {pipeline seed reached : Pipeline} {name : String}
    (fit : seed.NamesFit fits) (only : ∀ inner, value = .array inner → EvaluateOnly holds inner)
    (accepted : pipeline.replayNested name seed value = .ok reached) : reached.NamesFit fits := by
  match value with
  | .array documents =>
      obtain ⟨result, replays, kept⟩ := bind_eq_ok.mp accepted
      rw [withoutTerminal_eq_ok kept] at replays
      exact replay_namesFit rule source documents fit (only documents rfl) replays
  | .null | .bool _ | .number _ | .string _ | .object _ => contradiction

end

end Pipeline

end DocTyping
