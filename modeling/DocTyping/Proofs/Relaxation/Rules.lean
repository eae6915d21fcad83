import DocTyping.Pipeline.Replay
import DocTyping.Proofs.Relaxation.Checks

namespace DocTyping

/-!
# Stage rules in permissive surroundings

A pipeline may be placed in other surroundings: under another configuration, and
beside another catalog.  Where these allow more, each rule that a stage follows
finds what it found before.
-/

/-- A catalog in which every collection of another one has the same schema; without a catalog
there are no collections. -/
def GrowsTo (catalog wider : Option Catalog) : Prop :=
  ∀ held, catalog = some held → ∃ larger, wider = some larger ∧
    ∀ name root, held.collections.get? name = some root → larger.collections.get? name = some root

theorem literalDocument_grants {config relaxed : Configuration} {document : Json}
    (relaxes : config.Relaxes relaxed) :
    Grants (literalDocument config document) (literalDocument relaxed document) := by
  refine .ite (fun _ => ?_) fun _ => .refl _
  exact (Json.infer_grants relaxes).head

theorem literalDocuments_grants {config relaxed : Configuration} {documents : List Json}
    (relaxes : config.Relaxes relaxed) :
    Grants (literalDocuments config documents) (literalDocuments relaxed documents) := by
  induction documents with
  | nil => exact .refl _
  | cons document rest ih =>
      exact (literalDocument_grants relaxes).bind fun _ => ih.head

theorem checkGiven_grants {entries : Entries} {key : String} {check other : Json → Checked Unit}
    (each : ∀ value, Grants (check value) (other value)) :
    Grants (checkGiven entries key check) (checkGiven entries key other) := by
  unfold checkGiven
  split
  · exact each _
  · exact .refl _

theorem checkTexts_grants {flaw : Refusal} {check other : String → Checked Unit}
    {items : List Json} (each : ∀ text, Grants (check text) (other text)) :
    Grants (checkTexts flaw check items) (checkTexts flaw other items) := by
  induction items with
  | nil => exact .refl _
  | cons item rest ih =>
      cases item with
      | string text => exact (each text).bind fun _ => ih
      | _ => exact .refl _

namespace Pipeline

def placed (pipeline : Pipeline) (config : Configuration) (catalog : Option Catalog) : Pipeline :=
  { pipeline with config, catalog }

variable {pipeline : Pipeline} {relaxed : Configuration} {wider : Option Catalog} {root : Schema}
  {stage path key field : String} {value : Json} {entries : List (String × Json)}

section Arguments

variable (relaxes : pipeline.config.Relaxes relaxed)

include relaxes

theorem infer_grants : Grants (pipeline.infer value) ((pipeline.placed relaxed wider).infer value) :=
  Json.infer_grants relaxes

theorem checkFilter_grants :
    Grants (pipeline.checkFilter root value)
      ((pipeline.placed relaxed wider).checkFilter root value) :=
  Json.checkFilter_grants relaxes

theorem resolveIn_grants :
    Grants (pipeline.resolveIn root path) ((pipeline.placed relaxed wider).resolveIn root path) :=
  resolveChecked_grants relaxes.deepens

theorem resolve_grants :
    Grants (pipeline.resolve path) ((pipeline.placed relaxed wider).resolve path) :=
  resolveIn_grants relaxes

theorem checkPath_grants :
    Grants (pipeline.checkPath path) ((pipeline.placed relaxed wider).checkPath path) :=
  (resolve_grants relaxes).head

theorem checkExpression_grants :
    Grants (pipeline.checkExpression value)
      ((pipeline.placed relaxed wider).checkExpression value) :=
  (infer_grants relaxes).head

theorem checkSortKey_grants :
    Grants (pipeline.checkSortKey stage path value)
      ((pipeline.placed relaxed wider).checkSortKey stage path value) := by
  unfold checkSortKey
  split
  · exact .refl _
  · exact .ite (fun _ => (resolve_grants relaxes).head) fun _ => .refl _

theorem checkSortKeys_grants :
    Grants (pipeline.checkSortKeys stage entries)
      ((pipeline.placed relaxed wider).checkSortKeys stage entries) := by
  induction entries with
  | nil => exact .refl _
  | cons entry rest ih => exact (checkSortKey_grants relaxes).bind fun _ => ih

theorem checkSort_grants :
    Grants (pipeline.checkSort stage value)
      ((pipeline.placed relaxed wider).checkSort stage value) := by
  unfold checkSort
  split
  · exact checkSortKeys_grants relaxes
  · exact .refl _

theorem groupingKey_grants :
    Grants (pipeline.groupingKey stage value)
      ((pipeline.placed relaxed wider).groupingKey stage value) :=
  .ite (fun _ => infer_grants relaxes) fun _ => .refl _

theorem inferBindings_grants :
    Grants (pipeline.inferBindings stage entries)
      ((pipeline.placed relaxed wider).inferBindings stage entries) := by
  induction entries with
  | nil => exact .refl _
  | cons entry rest ih =>
      refine .ite (fun _ => ?_) fun _ => .refl _
      exact (infer_grants relaxes).bind fun _ => ih.head

theorem letBindings_grants :
    Grants (pipeline.letBindings stage entries)
      ((pipeline.placed relaxed wider).letBindings stage entries) := by
  unfold letBindings
  split
  · exact .tail fun _ => inferBindings_grants relaxes
  · exact .refl _

end Arguments

section Single

variable (relaxes : pipeline.config.Relaxes relaxed)

include relaxes

theorem checkNearness_grants :
    Grants (pipeline.checkNearness value)
      ((pipeline.placed relaxed wider).checkNearness value) := by
  have point (path : String) : Grants (pipeline.checkPointField path)
      ((pipeline.placed relaxed wider).checkPointField path) :=
    (resolve_grants relaxes).head
  refine .tail fun entries => .tail fun _ =>
    .tail fun _ => .tail fun _ => .tail fun _ =>
    .tail fun _ => .tail fun _ => .tail fun _ =>
    .tail fun _ => ?_
  refine (checkGiven_grants fun _ => checkFilter_grants relaxes).bind fun _ => ?_
  refine .tail fun given => ?_
  cases given with
  | none => exact .refl _
  | some path => exact point path

/-- A tolerated field is still undeclared within a larger depth, so it is tolerated there. -/
theorem withoutArray_grants {names : List String} {slot : Slot} :
    Grants (pipeline.withoutArray path names slot)
      ((pipeline.placed relaxed wider).withoutArray path names slot) := by
  intro schema accepted
  unfold withoutArray at accepted ⊢
  cases before : pipeline.resolve path with
  | ok resolved =>
      have after : (pipeline.placed relaxed wider).resolve path = .ok resolved :=
        resolve_grants relaxes resolved before
      rw [before] at accepted
      rw [after]
      exact accepted
  | error refusal =>
      rw [before] at accepted
      dsimp only at accepted
      split at accepted
      · rename_i tolerated
        obtain ⟨unknown, lenient⟩ := Bool.and_eq_true_iff.mp tolerated
        have after : (pipeline.placed relaxed wider).resolve path = .error refusal :=
          resolveChecked_deeper relaxes.deepens before unknown
        have stillLenient : (pipeline.placed relaxed wider).config.lenientUnwind = true :=
          relaxes.unwind lenient
        rw [after]
        simp only [unknown, stillLenient, Bool.and_self, ↓reduceIte]
        exact accepted
      · contradiction

theorem unwound_grants :
    Grants (pipeline.unwound value) ((pipeline.placed relaxed wider).unwound value) :=
  .tail fun _ => .tail fun _ => .tail fun _ =>
    (withoutArray_grants relaxes).head

theorem replaced_grants {declared : Option Schema} :
    Grants (pipeline.replaced stage value declared)
      ((pipeline.placed relaxed wider).replaced stage value declared) :=
  .tail fun _ => (infer_grants relaxes).head

theorem stated_grants :
    Grants (pipeline.stated value) ((pipeline.placed relaxed wider).stated value) := by
  unfold stated
  split
  · exact (literalDocuments_grants relaxes).head
  · exact .refl _

end Single

section Grouping

variable {accumulator : Accumulator} {window : Bool} (relaxes : pipeline.config.Relaxes relaxed)

include relaxes

theorem namedInner_grants {allowed : List String} {inner : Schema} :
    Grants (pipeline.namedInner accumulator allowed entries inner)
      ((pipeline.placed relaxed wider).namedInner accumulator allowed entries inner) := by
  induction entries generalizing inner with
  | nil => exact .refl _
  | cons entry rest ih =>
      refine .ite (fun _ => .refl _) fun _ => .ite (fun _ => ?_) fun _ => ?_
      · exact (checkSort_grants relaxes).bind fun _ => ih
      · exact (infer_grants relaxes).bind fun _ => ih

theorem gathered_grants :
    Grants (pipeline.gathered accumulator value)
      ((pipeline.placed relaxed wider).gathered accumulator value) := by
  unfold gathered
  split
  · exact infer_grants relaxes
  · exact .refl _
  · exact .refl _
  · exact .tail fun _ => namedInner_grants relaxes
  · exact .refl _

theorem accumulated_grants :
    Grants (pipeline.accumulated stage field value window)
      ((pipeline.placed relaxed wider).accumulated stage field value window) :=
  .tail fun _ => .tail fun _ =>
    (gathered_grants relaxes).head

theorem accumulatedFields_grants :
    Grants (pipeline.accumulatedFields stage entries)
      ((pipeline.placed relaxed wider).accumulatedFields stage entries) := by
  induction entries with
  | nil => exact .refl _
  | cons entry rest ih =>
      exact .tail fun _ => (accumulated_grants relaxes).bind fun _ =>
        ih.head

theorem grouped_grants :
    Grants (pipeline.grouped value) ((pipeline.placed relaxed wider).grouped value) :=
  .tail fun _ => .tail fun _ =>
    (infer_grants relaxes).within.bind fun _ =>
      (accumulatedFields_grants relaxes).head

theorem groupedByCount_grants :
    Grants (pipeline.groupedByCount value)
      ((pipeline.placed relaxed wider).groupedByCount value) :=
  (groupingKey_grants relaxes).head

theorem checkBucketKey_grants :
    Grants (pipeline.checkBucketKey stage entries)
      ((pipeline.placed relaxed wider).checkBucketKey stage entries) :=
  .tail fun _ => (groupingKey_grants relaxes).head

theorem checkBucketOutput_grants :
    Grants (pipeline.checkBucketOutput stage entries)
      ((pipeline.placed relaxed wider).checkBucketOutput stage entries) :=
  checkGiven_grants fun _ => .tail fun _ =>
    (accumulatedFields_grants relaxes).head

theorem checkBuckets_grants :
    Grants (pipeline.checkBuckets value) ((pipeline.placed relaxed wider).checkBuckets value) :=
  .tail fun _ => .tail fun _ =>
    (checkBucketKey_grants relaxes).bind fun _ => .tail fun _ =>
      checkBucketOutput_grants relaxes

theorem checkAutoBuckets_grants :
    Grants (pipeline.checkAutoBuckets value)
      ((pipeline.placed relaxed wider).checkAutoBuckets value) := by
  refine .tail fun _ => .tail fun _ =>
    (checkBucketKey_grants relaxes).bind fun _ => .tail fun _ =>
      .tail fun granularity => ?_
  cases granularity with
  | none => exact checkBucketOutput_grants relaxes
  | some name => exact .tail fun _ => checkBucketOutput_grants relaxes

theorem checkPartition_grants :
    Grants (pipeline.checkPartition stage entries)
      ((pipeline.placed relaxed wider).checkPartition stage entries) := by
  refine checkGiven_grants fun fields => ?_
  cases fields with
  | array paths => exact checkTexts_grants fun _ => checkPath_grants relaxes
  | _ => exact .refl _

theorem checkDensify_grants :
    Grants (pipeline.checkDensify value) ((pipeline.placed relaxed wider).checkDensify value) := by
  refine .tail fun _ => .tail fun _ => .tail fun _ =>
    (resolve_grants relaxes).bind fun resolved => ?_
  refine .ite (fun _ => .refl _) fun _ => ?_
  exact (checkPartition_grants relaxes).head

theorem checkFilling_grants {sorted : Bool} :
    Grants (pipeline.checkFilling sorted path value)
      ((pipeline.placed relaxed wider).checkFilling sorted path value) := by
  refine (checkPath_grants relaxes).bind fun _ => .tail fun filling => ?_
  split
  · exact checkExpression_grants relaxes
  all_goals exact .refl _

theorem checkFillings_grants {sorted : Bool} :
    Grants (pipeline.checkFillings sorted entries)
      ((pipeline.placed relaxed wider).checkFillings sorted entries) := by
  induction entries with
  | nil => exact .refl _
  | cons entry rest ih => exact (checkFilling_grants relaxes).bind fun _ => ih

theorem checkFill_grants :
    Grants (pipeline.checkFill value) ((pipeline.placed relaxed wider).checkFill value) :=
  .tail fun _ => .tail fun _ => .tail fun _ =>
    (checkGiven_grants fun _ => checkExpression_grants relaxes).bind fun _ =>
      (checkPartition_grants relaxes).bind fun _ =>
        (checkGiven_grants fun _ => checkSort_grants relaxes).bind fun _ =>
          .tail fun _ => .tail fun _ => checkFillings_grants relaxes

theorem checkWindowField_grants :
    Grants (pipeline.checkWindowField field value)
      ((pipeline.placed relaxed wider).checkWindowField field value) :=
  .tail fun _ => .tail fun _ => .tail fun _ =>
    (accumulated_grants relaxes).head

theorem checkWindowFields_grants :
    Grants (pipeline.checkWindowFields entries)
      ((pipeline.placed relaxed wider).checkWindowFields entries) := by
  induction entries with
  | nil => exact .refl _
  | cons entry rest ih => exact (checkWindowField_grants relaxes).bind fun _ => ih

theorem checkWindowStage_grants :
    Grants (pipeline.checkWindowStage value)
      ((pipeline.placed relaxed wider).checkWindowStage value) :=
  .tail fun _ => .tail fun _ =>
    (checkGiven_grants fun _ => checkExpression_grants relaxes).bind fun _ =>
      (checkGiven_grants fun _ => checkSort_grants relaxes).bind fun _ =>
        .tail fun _ => .tail fun _ =>
          checkWindowFields_grants relaxes

end Grouping

section Projection

variable (relaxes : pipeline.config.Relaxes relaxed)

include relaxes

theorem inferAt_grants :
    Grants (pipeline.inferAt key value) ((pipeline.placed relaxed wider).inferAt key value) :=
  (infer_grants relaxes).within

theorem includeLeaf_grants {names : List String} {tree : Keyed Kept} :
    Grants (pipeline.includeLeaf key value names tree)
      ((pipeline.placed relaxed wider).includeLeaf key value names tree) := by
  unfold includeLeaf
  cases ProjectionLeaf.of value with
  | keep => exact (checkPath_grants relaxes).head
  | drop => exact .refl _
  | compute => exact (inferAt_grants relaxes).head

theorem excludeLeaf_grants {names : List String} {schema : Schema} :
    Grants (pipeline.excludeLeaf key value names schema)
      ((pipeline.placed relaxed wider).excludeLeaf key value names schema) := by
  unfold excludeLeaf
  cases ProjectionLeaf.of value with
  | compute => exact (inferAt_grants relaxes).head
  | _ => exact (checkPath_grants relaxes).head

omit relaxes in
theorem readLeaves_grants {α : Type} {read other : String → Json → List String → α → Checked α}
    {result : α} (each : ∀ key value names held,
      Grants (read key value names held) (other key value names held)) :
    Grants (readLeaves read entries result) (readLeaves other entries result) := by
  induction entries generalizing result with
  | nil => exact .refl _
  | cons entry rest ih =>
      exact .tail fun _ => (each _ _ _ _).bind fun _ => ih.head

theorem projected_grants :
    Grants (pipeline.projected value) ((pipeline.placed relaxed wider).projected value) := by
  refine .tail fun leaves => .ite (fun _ => ?_) fun _ => ?_
  · exact (readLeaves_grants fun _ _ _ _ => includeLeaf_grants relaxes).head
  · exact (readLeaves_grants fun _ _ _ _ => excludeLeaf_grants relaxes).head

theorem readAdditions_grants :
    Grants (pipeline.readAdditions stage entries)
      ((pipeline.placed relaxed wider).readAdditions stage entries) := by
  induction entries with
  | nil => exact .refl _
  | cons entry rest ih =>
      refine .tail fun _ => ?_
      dsimp only
      refine .ite (fun _ => ?_) fun _ => ?_
      · exact .tail fun _ => ih.head
      · exact (inferAt_grants relaxes).bind fun _ => .tail fun _ =>
          ih.head

theorem withAdditions_grants :
    Grants (pipeline.withAdditions stage value)
      ((pipeline.placed relaxed wider).withAdditions stage value) :=
  .tail fun _ => (readAdditions_grants relaxes).head

theorem removeAll_grants {paths : List String} {schema : Schema} :
    Grants (pipeline.removeAll paths schema)
      ((pipeline.placed relaxed wider).removeAll paths schema) := by
  induction paths generalizing schema with
  | nil => exact .refl _
  | cons path rest ih =>
      exact .tail fun _ => (checkPath_grants relaxes).bind fun _ => ih

theorem withRemovals_grants :
    Grants (pipeline.withRemovals value) ((pipeline.placed relaxed wider).withRemovals value) :=
  .tail fun _ => removeAll_grants relaxes

end Projection

section Joins

variable (relaxes : pipeline.config.Relaxes relaxed)

theorem foreign_grants (grows : GrowsTo pipeline.catalog wider) :
    Grants (pipeline.foreign stage) ((pipeline.placed relaxed wider).foreign stage) := by
  intro schema accepted
  unfold foreign at accepted ⊢
  cases held : pipeline.catalog with
  | none =>
      rw [held] at accepted
      contradiction
  | some catalog =>
      obtain ⟨larger, given, kept⟩ := grows catalog held
      rw [held] at accepted
      have found := mapError_eq_ok.mp accepted
      have after : (pipeline.placed relaxed wider).catalog = some larger := given
      rw [after]
      refine mapError_eq_ok.mpr ?_
      unfold Catalog.get at found ⊢
      split at found
      · rename_i root listed
        rw [kept _ _ listed]
        exact found
      · contradiction

theorem foreignUnder_grants (grows : GrowsTo pipeline.catalog wider) :
    Grants (pipeline.foreignUnder stage entries key)
      ((pipeline.placed relaxed wider).foreignUnder stage entries key) :=
  .tail fun _ => foreign_grants grows

include relaxes

theorem checkPathUnder_grants :
    Grants (pipeline.checkPathUnder stage root entries key)
      ((pipeline.placed relaxed wider).checkPathUnder stage root entries key) :=
  .tail fun _ => (resolveIn_grants relaxes).head

theorem joinsByEquality_grants :
    Grants (pipeline.joinsByEquality root entries)
      ((pipeline.placed relaxed wider).joinsByEquality root entries) := by
  unfold joinsByEquality
  split
  · exact (checkPathUnder_grants relaxes).bind fun _ =>
      (checkPathUnder_grants relaxes).head
  · exact .refl _
  · exact .refl _

theorem readJoin_grants (grows : GrowsTo pipeline.catalog wider) :
    Grants (pipeline.readJoin entries) ((pipeline.placed relaxed wider).readJoin entries) :=
  .tail fun _ => (foreignUnder_grants grows).bind fun _ =>
    .tail fun _ => .tail fun _ =>
      (joinsByEquality_grants relaxes).head

theorem checkGraph_grants (grows : GrowsTo pipeline.catalog wider) :
    Grants (pipeline.checkGraph value) ((pipeline.placed relaxed wider).checkGraph value) :=
  .tail fun _ => .tail fun _ =>
    (foreignUnder_grants grows).bind fun _ => .tail fun _ =>
      (checkExpression_grants relaxes).bind fun _ =>
        (checkPathUnder_grants relaxes).bind fun _ =>
          (checkPathUnder_grants relaxes).bind fun _ => .tail fun _ =>
            .tail fun _ => .tail fun _ =>
              checkGiven_grants fun _ => checkFilter_grants relaxes

theorem checkMergeKey_grants :
    Grants (pipeline.checkMergeKey value)
      ((pipeline.placed relaxed wider).checkMergeKey value) := by
  unfold checkMergeKey
  split
  · exact checkPath_grants relaxes
  · exact checkTexts_grants fun _ => checkPath_grants relaxes
  · exact .refl _

end Joins

end Pipeline

end DocTyping
