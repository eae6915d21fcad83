import DocTyping.Proofs.Path.Names
import DocTyping.Proofs.Pipeline.Documents
import DocTyping.Proofs.Pipeline.Expressions
import DocTyping.Proofs.Pipeline.Replay
import Mathlib.Logic.Relation

namespace DocTyping

/-!
# Derived schemas

What a stage can make of the schema before it, said once for all stages.  It edits
the schema place by place, keeps a selection of it, or derives a schema of its own.
The types that it writes are scalars, types of the expressions that it states and
arrays of these; the names that it writes are such as a schema may declare.
-/

open Relation

section Arguments

variable {stage key : String} {value : Json} {entries : Entries}

theorem objectArgument_eq_ok :
    objectArgument stage value = .ok entries ↔ value = .object entries := by
  cases value with
  | object held => simp [objectArgument]
  | _ => simp [objectArgument]

theorem requiredArgument_eq_ok :
    requiredArgument stage entries key = .ok value ↔ entries.lookup key = some value := by
  unfold requiredArgument Keyed.get?
  cases entries.lookup key with
  | none => simp
  | some held => simp

theorem accumulatorOf_eq_ok {field name : String} {argument : Json}
    (read : accumulatorOf stage field value = .ok (name, argument)) :
    value = .object [(name, argument)] := by
  unfold accumulatorOf at read
  split at read
  · split at read
    · cases read
      rfl
    · cases read
  · cases read

theorem named?_of_findAccumulator {name : String} {window : Bool} {accumulator : Accumulator}
    (found : findAccumulator name window = .ok accumulator) :
    Accumulator.named? name = some accumulator := by
  unfold findAccumulator at found
  split at found
  · rename_i held known
    obtain ⟨_, _, same⟩ := bind_eq_ok.mp found
    cases same
    exact known
  · contradiction

end Arguments

namespace Pipeline

/-- A type that a stage writes, given the expressions that it states. -/
inductive Gives (pipeline : Pipeline) (states : Json → Prop) : Schema → Prop
  | scalar (kind : ScalarKind) : Gives pipeline states (.scalar kind)
  | inferred {expression : Json} {type : Schema} (stated : states expression)
      (typed : pipeline.infer expression = .ok type) : Gives pipeline states type
  | array {type : Schema} (element : Gives pipeline states type) :
      Gives pipeline states (.array type)

inductive Edits (pipeline : Pipeline) (states : Json → Prop) : Schema → Schema → Prop
  | written {names : List String} {type : Schema} (slot : Slot) (schema : Schema)
      (named : names ≠ []) (flawless : ∀ name ∈ names, NameFlaw.of? name = none)
      (given : pipeline.Gives states type) :
      Edits pipeline states schema (.setPath type slot names schema)
  | removed (names : List String) (schema : Schema) :
      Edits pipeline states schema (.removePath names schema)
  | unwound {names : List String} (slot : Slot) (schema : Schema) (named : names ≠ [])
      (flawless : ∀ name ∈ names, NameFlaw.of? name = none) :
      Edits pipeline states schema (.unwindPath slot names schema)

inductive Selects (pipeline : Pipeline) (states : Json → Prop) : Keyed Kept → Prop
  | nothing : Selects pipeline states []
  | field {names : List String} {tree : Keyed Kept} (before : Selects pipeline states tree)
      (flawless : ∀ name ∈ names, NameFlaw.of? name = none) :
      Selects pipeline states (Kept.plant .field names tree)
  | computed {names : List String} {tree : Keyed Kept} {type : Schema}
      (before : Selects pipeline states tree)
      (flawless : ∀ name ∈ names, NameFlaw.of? name = none)
      (given : pipeline.Gives states type) :
      Selects pipeline states (Kept.plant (.computed type) names tree)

inductive Derives (pipeline : Pipeline) (states : Json → Prop) : Schema → Prop
  | edited {schema : Schema}
      (edits : ReflTransGen (pipeline.Edits states) pipeline.schema schema) :
      Derives pipeline states schema
  | selected {tree : Keyed Kept} (selects : pipeline.Selects states tree) :
      Derives pipeline states (Kept.apply tree pipeline.schema)
  | recorded {fields : List (String × Schema)}
      (flawless : ∀ field ∈ fields, NameFlaw.of? field.1 = none)
      (given : ∀ field ∈ fields, pipeline.Gives states field.2) :
      Derives pipeline states (.record fields)
  | replaced {type : Schema} (given : pipeline.Gives states type)
      (object : type.isObject = true) : Derives pipeline states type
  | unknown : Derives pipeline states .anyObject
  | stated {documents : List Json} (stated : ∀ document ∈ documents, states document)
      (accepted : ∀ document ∈ documents, IsLiteralDocument pipeline.config document) :
      Derives pipeline states
        (.unifyDocuments (documents.map (Json.typeIn (literalScope pipeline.config))))

variable {pipeline next : Pipeline} {states others : Json → Prop} {arguments value : Json}
  {schema type : Schema} {stage : String} {leaves entries : List (String × Json)}

theorem Gives.mono (given : pipeline.Gives states type)
    (among : ∀ expression, states expression → others expression) :
    pipeline.Gives others type := by
  induction given with
  | scalar kind => exact .scalar kind
  | inferred stated typed => exact .inferred (among _ stated) typed
  | array _ ih => exact .array ih

theorem derives_self : pipeline.Derives states pipeline.schema := .edited .refl

theorem inferAt_eq_ok {key : String} :
    pipeline.inferAt key value = .ok type ↔ pipeline.infer value = .ok type :=
  within_eq_ok

section Additions

theorem readAdditions_edits {additions : List (List String × Option Schema)}
    (stated : ∀ leaf ∈ leaves, states leaf.2)
    (read : pipeline.readAdditions stage leaves = .ok additions) :
    ReflTransGen (pipeline.Edits states) schema (additions.foldl applyAddition schema) := by
  induction leaves generalizing additions schema with
  | nil =>
      cases read
      exact .refl
  | cons leaf rest ih =>
      obtain ⟨key, value⟩ := leaf
      obtain ⟨head, tail⟩ := List.forall_mem_cons.mp stated
      obtain ⟨names, named, read⟩ := bind_eq_ok.mp read
      dsimp only at read
      split at read
      · simp only [pure_bind, bind_eq_ok, pure_eq_ok] at read
        obtain ⟨others, later, rfl⟩ := read
        exact .head (.removed names schema) (ih tail later)
      · simp only [pure_bind, bind_eq_ok, pure_eq_ok] at read
        obtain ⟨type, typed, others, later, rfl⟩ := read
        have first : pipeline.Edits states schema (.setPath type {} names schema) :=
          .written {} schema (fieldNames_ne_nil named) (fieldNames_flawless named)
            (.inferred head (inferAt_eq_ok.mp typed))
        exact .head first (ih tail later)

theorem withAdditions_derives (specifies : stage ∈ specifyingStages)
    (derived : pipeline.withAdditions stage arguments = .ok schema) :
    pipeline.Derives (StageExpression stage arguments) schema := by
  simp only [withAdditions, bind_eq_ok, pure_eq_ok] at derived
  obtain ⟨leaves, stated, additions, read, _, _, rfl⟩ := derived
  exact .edited (readAdditions_edits (fun leaf member => .leaf specifies stated member) read)

theorem removeAll_edits {paths : List String} {start : Schema}
    (removed : pipeline.removeAll paths start = .ok schema) :
    ReflTransGen (pipeline.Edits states) start schema := by
  induction paths generalizing start with
  | nil =>
      cases removed
      exact .refl
  | cons path rest ih =>
      simp only [removeAll, bind_eq_ok] at removed
      obtain ⟨names, _, _, _, later⟩ := removed
      exact .head (.removed names start) (ih later)

theorem withRemovals_derives (derived : pipeline.withRemovals arguments = .ok schema) :
    pipeline.Derives states schema := by
  obtain ⟨paths, _, removed⟩ := bind_eq_ok.mp derived
  exact .edited (removeAll_edits removed)

end Additions

section Projections

/-- What each leaf preserves holds of what a projection reads. -/
theorem readLeaves_induction {α : Type} {motive : α → Prop}
    {read : String → Json → List String → α → Checked α} {start : α} {projected : Projected α}
    (step : ∀ leaf ∈ leaves, ∀ names current next, fieldNames "$project" leaf.1 = .ok names →
      read leaf.1 leaf.2 names current = .ok next → motive current → motive next)
    (accepted : readLeaves read leaves start = .ok projected) (begun : motive start) :
    motive projected.result := by
  induction leaves generalizing start projected with
  | nil =>
      cases accepted
      exact begun
  | cons leaf rest ih =>
      obtain ⟨key, value⟩ := leaf
      simp only [readLeaves, bind_eq_ok, pure_eq_ok] at accepted
      obtain ⟨names, named, next, first, rested, later, rfl⟩ := accepted
      obtain ⟨head, tail⟩ := List.forall_mem_cons.mp step
      exact @ih next rested tail later (head names start next named first begun)

theorem includeLeaf_selects {key : String} {names : List String} {tree grown : Keyed Kept}
    (stated : states value) (named : fieldNames "$project" key = .ok names)
    (accepted : pipeline.includeLeaf key value names tree = .ok grown)
    (before : pipeline.Selects states tree) : pipeline.Selects states grown := by
  unfold includeLeaf at accepted
  split at accepted
  · obtain ⟨_, _, made⟩ := bind_eq_ok.mp accepted
    cases made
    exact .field before (fieldNames_flawless named)
  · split at accepted
    · cases accepted
      exact before
    · contradiction
  · obtain ⟨type, typed, made⟩ := bind_eq_ok.mp accepted
    cases made
    exact .computed before (fieldNames_flawless named)
      (.inferred stated (inferAt_eq_ok.mp typed))

theorem excludeLeaf_edits {key : String} {names : List String} {start : Schema}
    (stated : states value) (named : fieldNames "$project" key = .ok names)
    (accepted : pipeline.excludeLeaf key value names start = .ok schema) :
    pipeline.Edits states start schema := by
  unfold excludeLeaf at accepted
  split at accepted
  · obtain ⟨type, typed, made⟩ := bind_eq_ok.mp accepted
    cases made
    exact .written {} start (fieldNames_ne_nil named) (fieldNames_flawless named)
      (.inferred stated (inferAt_eq_ok.mp typed))
  · obtain ⟨_, _, made⟩ := bind_eq_ok.mp accepted
    cases made
    exact .removed names start

theorem projected_derives (derived : pipeline.projected arguments = .ok schema) :
    pipeline.Derives (StageExpression "$project" arguments) schema := by
  obtain ⟨leaves, read, derived⟩ := bind_eq_ok.mp derived
  have stated : ∀ leaf ∈ leaves, StageExpression "$project" arguments leaf.2 :=
    fun leaf member => .leaf (by decide) read member
  split at derived
  · simp only [bind_eq_ok, pure_eq_ok] at derived
    obtain ⟨_, accepted, _, _, rfl⟩ := derived
    refine .selected (readLeaves_induction ?_ accepted .nothing)
    intro leaf member names tree grown named grows before
    exact includeLeaf_selects (stated leaf member) named grows before
  · simp only [bind_eq_ok, pure_eq_ok] at derived
    obtain ⟨_, accepted, _, _, rfl⟩ := derived
    refine .edited (readLeaves_induction ?_ accepted .refl)
    intro leaf member names current next named changes before
    exact before.tail (excludeLeaf_edits (stated leaf member) named changes)

end Projections

section Groups

theorem namedInner_gives {accumulator : Accumulator} {allowed : List String} {inner : Schema}
    (stated : ∀ entry ∈ entries, accumulator.inner = some entry.1 → states entry.2)
    (accepted : pipeline.namedInner accumulator allowed entries inner = .ok type)
    (given : pipeline.Gives states inner) : pipeline.Gives states type := by
  induction entries generalizing inner with
  | nil =>
      cases accepted
      exact given
  | cons entry rest ih =>
      obtain ⟨key, value⟩ := entry
      obtain ⟨head, tail⟩ := List.forall_mem_cons.mp stated
      simp only [namedInner] at accepted
      split at accepted
      · contradiction
      · split at accepted
        · obtain ⟨_, _, later⟩ := bind_eq_ok.mp accepted
          exact ih tail later given
        · obtain ⟨found, typed, later⟩ := bind_eq_ok.mp accepted
          refine ih tail later ?_
          split
          · rename_i named
            exact .inferred (head named) typed
          · exact given

theorem gathered_gives {accumulator : Accumulator}
    (accepted : pipeline.gathered accumulator arguments = .ok type) :
    pipeline.Gives (accumulator.Gathers arguments) type := by
  unfold gathered at accepted
  split at accepted
  · rename_i form
    exact .inferred (.whole form) accepted
  · cases accepted
    exact .scalar _
  · contradiction
  · obtain ⟨_, _, accepted⟩ := bind_eq_ok.mp accepted
    exact namedInner_gives (fun entry member named => .inner member named) accepted (.scalar _)
  · contradiction

theorem accumulated_gives {field : String} {window : Bool}
    (stated : ∀ name argument accumulator expression, value = .object [(name, argument)] →
      Accumulator.named? name = some accumulator → accumulator.Gathers argument expression →
        states expression)
    (accepted : pipeline.accumulated stage field value window = .ok type) :
    pipeline.Gives states type := by
  simp only [accumulated, bind_eq_ok, pure_eq_ok] at accepted
  obtain ⟨⟨name, argument⟩, read, accumulator, found, inner, gathers, rfl⟩ := accepted
  have given : pipeline.Gives states inner := by
    apply (gathered_gives gathers).mono
    intro expression gathered
    exact stated name argument accumulator expression (accumulatorOf_eq_ok read)
      (named?_of_findAccumulator found) gathered
  cases accumulator.output with
  | number => exact .scalar _
  | arrayOfInner => exact .array given
  | inner => exact given

theorem accumulatedFields_given {listed : List (String × Json)} {fields : List (String × Schema)}
    (among : entries ⊆ listed) (accepted : pipeline.accumulatedFields stage entries = .ok fields) :
    ∀ field ∈ fields, NameFlaw.of? field.1 = none ∧
      pipeline.Gives (StageExpression "$group" (.object listed)) field.2 := by
  induction entries generalizing fields with
  | nil =>
      cases accepted
      simp
  | cons entry rest ih =>
      obtain ⟨key, value⟩ := entry
      obtain ⟨head, tail⟩ := List.cons_subset.mp among
      simp only [accumulatedFields, bind_eq_ok, pure_eq_ok] at accepted
      obtain ⟨_, named, type, typed, others, later, rfl⟩ := accepted
      refine List.forall_mem_cons.mpr ⟨⟨checkFieldName_eq_ok.mp named, ?_⟩, ih tail later⟩
      apply accumulated_gives _ typed
      intro name argument accumulator expression same known gathers
      rw [same] at head
      exact .accumulated head known gathers

theorem grouped_derives (derived : pipeline.grouped arguments = .ok schema) :
    pipeline.Derives (StageExpression "$group" arguments) schema := by
  simp only [grouped, bind_eq_ok, pure_eq_ok, objectArgument_eq_ok, within_eq_ok] at derived
  obtain ⟨entries, rfl, key, required, type, typed, fields, accumulates, rfl⟩ := derived
  have given := accumulatedFields_given (List.filter_subset_self _) accumulates
  have keyed : pipeline.Gives (StageExpression "$group" (.object entries)) type :=
    .inferred (.groupingKey (requiredArgument_eq_ok.mp required)) typed
  have flawless : NameFlaw.of? "_id" = none := by decide
  exact .recorded (List.forall_mem_cons.mpr ⟨flawless, fun field member => (given field member).1⟩)
    (List.forall_mem_cons.mpr ⟨keyed, fun field member => (given field member).2⟩)

theorem infer_of_groupingKey (accepted : pipeline.groupingKey stage value = .ok type) :
    pipeline.infer value = .ok type := by
  have chosen : ∀ valid : Bool,
      (if valid then pipeline.infer value
        else .error (.argument stage (.expectedNot .groupingKey value))) = .ok type →
      pipeline.infer value = .ok type := by
    intro valid typed
    cases valid with
    | false => contradiction
    | true => exact typed
  exact chosen _ accepted

theorem groupedByCount_derives (derived : pipeline.groupedByCount arguments = .ok schema) :
    pipeline.Derives (StageExpression "$sortByCount" arguments) schema := by
  simp only [groupedByCount, bind_eq_ok, pure_eq_ok] at derived
  obtain ⟨type, keyed, rfl⟩ := derived
  have named : NameFlaw.of? "_id" = none ∧ NameFlaw.of? "count" = none := by decide
  have typed := infer_of_groupingKey keyed
  exact .recorded (List.forall_mem_cons.mpr ⟨named.1, List.forall_mem_singleton.mpr named.2⟩)
    (List.forall_mem_cons.mpr
      ⟨.inferred .countedKey typed, List.forall_mem_singleton.mpr (.scalar _)⟩)

theorem counted_derives {field : String} (derived : DocTyping.counted field = .ok schema) :
    pipeline.Derives states schema := by
  simp only [DocTyping.counted, bind_eq_ok, pure_eq_ok] at derived
  obtain ⟨_, named, rfl⟩ := derived
  exact .recorded (List.forall_mem_singleton.mpr (checkFieldName_eq_ok.mp named))
    (List.forall_mem_singleton.mpr (.scalar _))

end Groups

theorem withoutArray_edits {path : String} {names : List String} {slot : Slot}
    (named : fieldNames "$unwind" path = .ok names)
    (derived : pipeline.withoutArray path names slot = .ok schema) :
    ReflTransGen (pipeline.Edits states) pipeline.schema schema := by
  unfold withoutArray at derived
  split at derived
  · cases derived
    split
    · exact .single (.unwound slot _ (fieldNames_ne_nil named) (fieldNames_flawless named))
    · exact .refl
  · split at derived
    · cases derived
      exact .refl
    · contradiction

theorem writeIndex_edits {unwinding : Unwinding} {start : Schema}
    (derived : unwinding.writeIndex start = .ok schema) :
    ReflTransGen (pipeline.Edits states) start schema := by
  unfold Unwinding.writeIndex at derived
  split at derived
  · obtain ⟨names, named, made⟩ := bind_eq_ok.mp derived
    cases made
    exact .single
      (.written _ start (fieldNames_ne_nil named) (fieldNames_flawless named) (.scalar _))
  · cases derived
    exact .refl

theorem unwound_derives (derived : pipeline.unwound arguments = .ok schema) :
    pipeline.Derives states schema := by
  simp only [unwound, bind_eq_ok] at derived
  obtain ⟨unwinding, _, path, _, names, named, between, unwinds, indexed⟩ := derived
  exact .edited ((withoutArray_edits named unwinds).trans (writeIndex_edits indexed))

theorem replaced_derives (stated : states value)
    (derived : pipeline.replaced stage value none = .ok schema) :
    pipeline.Derives states schema := by
  simp only [Pipeline.replaced, bind_eq_ok] at derived
  obtain ⟨_, _, type, typed, document⟩ := derived
  unfold Schema.asDocument at document
  split at document
  · rename_i object
    cases document
    exact .replaced (.inferred stated typed) object
  · split at document
    · cases document
      exact .unknown
    · contradiction

theorem stated_derives (derived : pipeline.stated arguments = .ok schema) :
    pipeline.Derives (StageExpression "$documents" arguments) schema := by
  unfold Pipeline.stated at derived
  split at derived
  · obtain ⟨types, accepted, made⟩ := bind_eq_ok.mp derived
    obtain ⟨each, rfl⟩ := literalDocuments_eq_ok.mp accepted
    cases made
    exact .stated (fun document member => .document member) each
  · contradiction

theorem derives_of_pass {name : String} {stated : Json} {checked : Checked Unit}
    (passed : pipeline.pass name stated checked = .ok next) :
    pipeline.Derives states next.schema := by
  obtain ⟨_, rfl⟩ := pass_eq_ok.mp passed
  exact derives_self

theorem derives_of_reshape {name : String} {stated : Json} {derived : Checked Schema}
    (each : ∀ schema, derived = .ok schema → pipeline.Derives states schema)
    (reshaped : pipeline.reshape name stated derived = .ok next) :
    pipeline.Derives states next.schema := by
  obtain ⟨schema, reached, rfl⟩ := reshape_eq_ok.mp reshaped
  exact each schema reached

theorem lookup_of_onlyArgument {key : String}
    (read : onlyArgument stage key arguments = .ok value) (given : value ≠ .null) :
    ∃ entries, arguments = .object entries ∧ entries.lookup key = some value := by
  simp only [onlyArgument, bind_eq_ok, pure_eq_ok, objectArgument_eq_ok] at read
  obtain ⟨entries, rfl, _, _, found⟩ := read
  refine ⟨entries, rfl, ?_⟩
  cases stated : entries.get? key with
  | none => exact absurd (by rw [← found, stated]; rfl) given
  | some held =>
      rw [stated] at found
      cases found
      exact stated

theorem derives_of_extendFlat {name : String}
    (extended : pipeline.extendFlat name arguments = .ok next) :
    pipeline.Derives (StageExpression name arguments) next.schema := by
  unfold extendFlat at extended
  split at extended
  case h_2 | h_3 | h_4 =>
    obtain ⟨_, _, passed⟩ := bind_eq_ok.mp extended
    exact derives_of_pass passed
  case h_7 | h_8 =>
    exact derives_of_reshape (fun _ => withAdditions_derives (by decide)) extended
  case h_9 => exact derives_of_reshape (fun _ => withRemovals_derives) extended
  case h_10 => exact derives_of_reshape (fun _ => projected_derives) extended
  case h_11 => exact derives_of_reshape (fun _ => grouped_derives) extended
  case h_12 =>
    split at extended
    · exact derives_of_reshape (fun _ => counted_derives) extended
    · contradiction
  case h_13 => exact derives_of_reshape (fun _ => groupedByCount_derives) extended
  case h_14 => exact derives_of_reshape (fun _ => unwound_derives) extended
  case h_15 =>
    obtain ⟨expression, read, replaced⟩ := bind_eq_ok.mp extended
    obtain ⟨entries, rfl, stated⟩ :=
      lookup_of_onlyArgument (lift_eq_ok.mp read) (replaceRoot_not_null replaced)
    exact derives_of_reshape (fun _ => replaced_derives (.newRoot stated)) replaced
  case h_16 => exact derives_of_reshape (fun _ => replaced_derives .replacement) extended
  case h_23 =>
    refine derives_of_reshape (fun schema derived => ?_) extended
    obtain ⟨_, _, stated⟩ := bind_eq_ok.mp derived
    exact stated_derives stated
  case h_24 | h_25 | h_26 => contradiction
  all_goals exact derives_of_pass extended

/-- A facet leads to documents with an array for each of its branches. -/
theorem record_of_facetOf (accepted : pipeline.facetOf arguments = .ok next) :
    ∃ entries branches, arguments = .object entries ∧
      pipeline.replayBranches entries = .ok branches ∧
      (∀ branch ∈ branches, NameFlaw.of? branch.1 = none) ∧
      next.schema = .record (branches.map fun branch => (branch.1, .array branch.2.schema)) := by
  cases arguments with
  | object entries =>
      obtain ⟨branches, replayed, added⟩ := bind_eq_ok.mp accepted
      obtain ⟨_, each, _, rfl⟩ := facet_eq_ok.mp added
      exact ⟨entries, branches, rfl, replayed, fun branch member => (each branch member).1, rfl⟩
  | _ => contradiction

/-- A join writes an array of the documents that it finds. -/
theorem attach_of_lookup (accepted : pipeline.lookup arguments = .ok next) :
    ∃ entries join seed joined, arguments = .object entries ∧
      pipeline.readJoin entries = .ok join ∧ pipeline.joinSeed join entries = .ok seed ∧
      pipeline.replayUnder "$lookup" seed entries = .ok joined ∧
      next.schema = join.attach pipeline.schema joined.schema := by
  cases arguments with
  | object entries =>
      simp only [lookup, bind_eq_ok, lift_eq_ok, pure_eq_ok] at accepted
      obtain ⟨join, read, seed, seeds, joined, replays, rfl⟩ := accepted
      exact ⟨entries, join, seed, joined, rfl, read, seeds, replays, rfl⟩
  | _ => contradiction

theorem readJoin_eq_ok {join : Join} (read : pipeline.readJoin entries = .ok join) :
    join.target ≠ [] ∧ (∀ name ∈ join.target, NameFlaw.of? name = none) ∧
      ∃ collection, pipeline.foreign collection = .ok join.foreign := by
  simp only [readJoin, foreignUnder, bind_eq_ok, pure_eq_ok] at read
  obtain ⟨_, _, foreign, ⟨collection, _, found⟩, _, _, target, named, _, _, rfl⟩ := read
  exact ⟨fieldNames_ne_nil named, fieldNames_flawless named, collection, found⟩

/-- What is appended leaves the schema as it is. -/
theorem schema_of_unionWith (accepted : pipeline.unionWith arguments = .ok next) :
    next.schema = pipeline.schema := by
  cases arguments with
  | object entries =>
      simp only [unionWith, bind_eq_ok, pure_eq_ok] at accepted
      obtain ⟨_, _, _, _, rfl⟩ := accepted
      rfl
  | _ =>
      obtain ⟨_, rfl⟩ := pass_eq_ok.mp accepted
      rfl

end Pipeline

end DocTyping
