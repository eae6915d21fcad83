import DocTyping.Proofs.Pipeline.Replay

namespace DocTyping

/-!
# Calls

A pipeline may be built by calls, each with arguments of its own form, instead of
by documents.  A call states a stage, and replaying the document of that stage has
the same outcome as the call.  `$replaceRoot` and `$replaceWith` are called without
a declared schema here, because documents cannot declare one.
-/

namespace Pipeline

/-- A call that adds one stage. -/
inductive Call where
  | matching (filter : Json)
  | sample (size : Int64)
  | limit (bound : Int64)
  | skip (bound : Int64)
  | sort (keys : Json)
  | setWindowFields (options : Json)
  | bucket (options : Json)
  | bucketAuto (options : Json)
  | densify (options : Json)
  | fill (options : Json)
  | geoNear (options : Json)
  | graphLookup (options : Json)
  | unionWith (source : Json)
  | addFields (fields : Json)
  | set (fields : Json)
  | unset (paths : Json)
  | project (fields : Json)
  | group (options : Json)
  | count (field : String)
  | sortByCount (key : Json)
  | lookup (options : Json)
  | unwind (options : Json)
  | replaceRoot (expression : Json)
  | replaceWith (expression : Json)
  | documents (stated : Json)
  /-- The calls of each branch start from the current schema. -/
  | facet (branches : List (String × List Call))

namespace Call

mutual

def perform (pipeline : Pipeline) : Call → Except PipelineError Pipeline
  | matching filter => pipeline.matching filter
  | sample size => pipeline.sample size.toInt
  | limit bound => pipeline.limit bound.toInt
  | skip bound => pipeline.skip bound.toInt
  | sort keys => pipeline.sort keys
  | setWindowFields options => pipeline.setWindowFields options
  | bucket options => pipeline.bucket options
  | bucketAuto options => pipeline.bucketAuto options
  | densify options => pipeline.densify options
  | fill options => pipeline.fill options
  | geoNear options => pipeline.geoNear options
  | graphLookup options => pipeline.graphLookup options
  | unionWith source => pipeline.unionWith source
  | addFields fields => pipeline.addFields fields
  | set fields => pipeline.set fields
  | unset paths => pipeline.unset paths
  | project fields => pipeline.project fields
  | group options => pipeline.group options
  | count field => pipeline.count field
  | sortByCount key => pipeline.sortByCount key
  | lookup options => pipeline.lookup options
  | unwind options => pipeline.unwind options
  | replaceRoot expression => pipeline.replaceRoot expression none
  | replaceWith expression => pipeline.replaceWith expression none
  | documents stated => pipeline.documents stated
  | facet branches => do
    let built ← performBranches (pipeline.seed pipeline.schema) branches
    pipeline.facet built
termination_by structural call => call

def performAll (pipeline : Pipeline) : List Call → Except PipelineError Pipeline
  | [] => .ok pipeline
  | call :: rest => do
    let next ← perform pipeline call
    performAll next rest
termination_by structural calls => calls

def performBranches (seed : Pipeline) :
    List (String × List Call) → Except PipelineError (List (String × Pipeline))
  | [] => .ok []
  | (name, calls) :: rest => do
    let branch ← performAll seed calls
    let branches ← performBranches seed rest
    return (name, branch) :: branches
termination_by structural branches => branches

end

mutual

def stage : Call → Stage
  | matching filter => ⟨"$match", filter⟩
  | sample size => ⟨"$sample", .object [("size", .ofInt size.toInt)]⟩
  | limit bound => ⟨"$limit", .ofInt bound.toInt⟩
  | skip bound => ⟨"$skip", .ofInt bound.toInt⟩
  | sort keys => ⟨"$sort", keys⟩
  | setWindowFields options => ⟨"$setWindowFields", options⟩
  | bucket options => ⟨"$bucket", options⟩
  | bucketAuto options => ⟨"$bucketAuto", options⟩
  | densify options => ⟨"$densify", options⟩
  | fill options => ⟨"$fill", options⟩
  | geoNear options => ⟨"$geoNear", options⟩
  | graphLookup options => ⟨"$graphLookup", options⟩
  | unionWith source => ⟨"$unionWith", source⟩
  | addFields fields => ⟨"$addFields", fields⟩
  | set fields => ⟨"$set", fields⟩
  | unset paths => ⟨"$unset", paths⟩
  | project fields => ⟨"$project", fields⟩
  | group options => ⟨"$group", options⟩
  | count field => ⟨"$count", .string field⟩
  | sortByCount key => ⟨"$sortByCount", key⟩
  | lookup options => ⟨"$lookup", options⟩
  | unwind options => ⟨"$unwind", options⟩
  | replaceRoot expression => ⟨"$replaceRoot", .object [("newRoot", expression)]⟩
  | replaceWith expression => ⟨"$replaceWith", expression⟩
  | documents stated => ⟨"$documents", stated⟩
  | facet branches => ⟨"$facet", .object (branchEntries branches)⟩
termination_by structural call => call

def documentsOf : List Call → List Json
  | [] => []
  | call :: rest => (stage call).document :: documentsOf rest
termination_by structural calls => calls

def branchEntries : List (String × List Call) → Entries
  | [] => []
  | (name, calls) :: rest => (name, .array (documentsOf calls)) :: branchEntries rest
termination_by structural branches => branches

end

end Call

end Pipeline

theorem Json.int64?_ofInt (value : Int64) : (ofInt value.toInt).int64? = some value.toInt := by
  have lower := value.minValue_le_toInt
  have upper := value.toInt_le
  simp only [int64?_eq_some_iff, Number.int64Min, Number.int64Max]
  exact ⟨trivial, lower, upper⟩

namespace Pipeline

theorem integerArgument_ofInt (stage : String) (value : Int64) :
    integerArgument stage (.ofInt value.toInt) = .ok value.toInt := by
  simp [integerArgument, Json.int64?_ofInt]

theorem onlyArgument_single (stage key : String) (value : Json) :
    onlyArgument stage key (.object [(key, value)]) = .ok value := by
  simp [onlyArgument, objectArgument, checkKnown, Keyed.get?, pure, Except.pure]

theorem onlyInteger_single (stage key : String) (value : Int64) :
    onlyInteger stage key (.object [(key, .ofInt value.toInt)]) = .ok value.toInt := by
  rw [onlyInteger, onlyArgument_single, ok_bind, integerArgument_ofInt]

namespace Call

theorem stage_ordinary (call : Call) : Stage.terminal? call.stage.document = none := by
  cases call <;> rfl

theorem startsWithDollar_stage (call : Call) :
    Text.startsWithDollar call.stage.name = true := by
  cases call <;> simp only [stage] <;> rfl

/-- A stage that holds no pipeline is added by the function that its call names. -/
theorem extendFlat_stage (call : Call) (pipeline : Pipeline)
    (flat : call.stage.name ∉ nestingStages) :
    pipeline.extendFlat call.stage.name call.stage.arguments = call.perform pipeline := by
  cases call with
  | facet branches => exact absurd (by simp [stage, nestingStages]) flat
  | lookup options => exact absurd (by simp [stage, nestingStages]) flat
  | unionWith source => exact absurd (by simp [stage, nestingStages]) flat
  | sample size =>
      simp only [stage, perform]
      exact congrArg (fun read => pipeline.lift "$sample" read >>= pipeline.sample)
        (onlyInteger_single "$sample" "size" size)
  | limit bound =>
      simp only [stage, perform]
      exact congrArg (fun read => pipeline.lift "$limit" read >>= pipeline.limit)
        (integerArgument_ofInt "$limit" bound)
  | skip bound =>
      simp only [stage, perform]
      exact congrArg (fun read => pipeline.lift "$skip" read >>= pipeline.skip)
        (integerArgument_ofInt "$skip" bound)
  | replaceRoot expression =>
      simp only [stage, perform]
      exact congrArg
        (fun read =>
          pipeline.lift "$replaceRoot" read >>= fun root => pipeline.replaceRoot root none)
        (onlyArgument_single "$replaceRoot" "newRoot" expression)
  | _ => rfl

mutual

/-- Replaying the document that a call states has the same outcome as the call. -/
theorem extend_stage (call : Call) (pipeline : Pipeline) :
    pipeline.extend call.stage.document = call.perform pipeline := by
  cases call with
  | facet branches =>
      change pipeline.extend (.object [("$facet", .object (branchEntries branches))]) = _
      rw [extend.eq_1, checkName_eq_ok rfl, ok_bind, facetOf, perform,
        replayBranches_branchEntries branches pipeline]
  | lookup options =>
      change pipeline.extend (.object [("$lookup", options)]) = _
      rw [extend.eq_2, checkName_eq_ok rfl, ok_bind, perform]
  | unionWith source =>
      change pipeline.extend (.object [("$unionWith", source)]) = _
      rw [extend.eq_3, checkName_eq_ok rfl, ok_bind, perform]
  | _ =>
      refine (extend_flat (startsWithDollar_stage _) ?_).trans (extendFlat_stage _ pipeline ?_)
      · simp [stage, nestingStages]
      · simp [stage, nestingStages]

theorem replay_documentsOf (calls : List Call) (pipeline : Pipeline) :
    pipeline.replay (documentsOf calls) =
      (performAll pipeline calls >>= fun reached => pure { pipeline := reached }) := by
  match calls with
  | [] => rfl
  | call :: rest =>
      rw [documentsOf, performAll, replay_cons fun _ => stage_ordinary call, extend_stage call]
      cases call.perform pipeline with
      | error cause => rfl
      | ok next => exact replay_documentsOf rest next

theorem replayBranches_branchEntries (branches : List (String × List Call))
    (pipeline : Pipeline) :
    pipeline.replayBranches (branchEntries branches) =
      performBranches (pipeline.seed pipeline.schema) branches := by
  match branches with
  | [] => rfl
  | (name, calls) :: rest =>
      rw [branchEntries, replayBranches, replayBranch, performBranches, replay_documentsOf calls,
        replayBranches_branchEntries rest pipeline]
      cases performAll (pipeline.seed pipeline.schema) calls with
      | error cause => rfl
      | ok branch => rfl

end

mutual

theorem perform_adds (call : Call) {pipeline next : Pipeline}
    (performed : call.perform pipeline = .ok next) : pipeline.Adds call.stage next := by
  cases call with
  | facet branches =>
      simp only [perform, bind_eq_ok] at performed
      obtain ⟨built, performed, faceted⟩ := performed
      rw [stage, ← performBranches_entries branches rfl performed]
      exact facet_adds faceted
  | lookup options => exact lookup_adds performed
  | unionWith source => exact unionWith_adds performed
  | _ => first | exact adds_of_pass performed | exact adds_of_reshape performed

theorem performAll_documents (calls : List Call) {pipeline built : Pipeline}
    (performed : performAll pipeline calls = .ok built) :
    built.stages.map Stage.document = pipeline.stages.map Stage.document ++ documentsOf calls := by
  match calls with
  | [] =>
      cases performed
      simp [documentsOf]
  | call :: rest =>
      simp only [performAll, bind_eq_ok] at performed
      obtain ⟨next, first, later⟩ := performed
      rw [performAll_documents rest later, (perform_adds call first).stages, documentsOf]
      simp

theorem performBranches_entries (branches : List (String × List Call)) {seed : Pipeline}
    {built : List (String × Pipeline)} (empty : seed.stages = [])
    (performed : performBranches seed branches = .ok built) :
    built.map (fun branch => (branch.1, branch.2.toJson)) = branchEntries branches := by
  match branches with
  | [] =>
      cases performed
      rfl
  | (name, calls) :: rest =>
      simp only [performBranches, bind_eq_ok, pure_eq_ok] at performed
      obtain ⟨branch, first, others, later, rfl⟩ := performed
      have head : branch.toJson = .array (documentsOf calls) := by
        simpa [toJson, empty] using performAll_documents calls first
      rw [List.map_cons, performBranches_entries rest empty later, head, branchEntries]

end

end Call

/-- The stages that calls have built, replayed as documents, lead to the same pipeline. -/
theorem replay_built {calls : List Call} {pipeline built : Pipeline}
    (empty : pipeline.stages = []) (performed : Call.performAll pipeline calls = .ok built) :
    pipeline.replay (built.stages.map Stage.document) = .ok { pipeline := built } := by
  have stated := Call.performAll_documents calls performed
  rw [empty, List.map_nil, List.nil_append] at stated
  rw [stated, Call.replay_documentsOf, performed]
  rfl

/-- Replaying restates its documents, agrees with calls, and takes one list after the other. -/
theorem replay_faithful :
    (∀ (pipeline : Pipeline) (documents : List Json) (replayed : Replay),
      pipeline.stages = [] → (∀ document ∈ documents, document.KeysDistinct) →
        pipeline.replay documents = .ok replayed →
          replayed.stages.map Stage.document = documents) ∧
    (∀ (pipeline built : Pipeline) (calls : List Call),
      pipeline.stages = [] → Call.performAll pipeline calls = .ok built →
        pipeline.replay (built.stages.map Stage.document) = .ok { pipeline := built }) ∧
    (∀ (pipeline : Pipeline) (first second : List Json),
      (∀ document ∈ first, Stage.terminal? document = none) →
        pipeline.replay (first ++ second) =
          (pipeline.replay first >>= fun replayed => replayed.pipeline.replay second)) := by
  refine ⟨?_, ?_, ?_⟩
  · intro pipeline documents replayed empty distinct accepted
    have restated := replay_documents documents distinct accepted
    rwa [empty, List.map_nil, List.nil_append] at restated
  · intro pipeline built calls empty performed
    exact replay_built empty performed
  · intro pipeline first second ordinary
    exact replay_append first second ordinary

def tallies : Pipeline :=
  { schema := .object ⟨[⟨"total", .scalar .int, false, false⟩], none⟩ }

/-- A sample, split into its first documents and their number. -/
def tallyCalls : List Call :=
  [.sample 5, .facet [("top", [.limit 3]), ("all", [.count "n"])]]

def tallyDocuments : List Json :=
  [.object [("$sample", .object [("size", .ofInt 5)])],
    .object [("$facet", .object
      [("top", .array [.object [("$limit", .ofInt 3)]]),
        ("all", .array [.object [("$count", .string "n")]])])]]

def tallyTarget : List Json := [.object [("$out", .string "archive")]]

theorem tallyDocuments_keysDistinct :
    ∀ document ∈ tallyDocuments ++ tallyTarget, document.KeysDistinct := by
  simp [tallyDocuments, tallyTarget, Json.keysDistinct_object_iff, Json.keysDistinct_array_iff,
    Json.KeysDistinct.number, Json.KeysDistinct.string, Json.ofInt]

theorem replay_faithful_facet :
    (∃ replayed, tallies.replay (tallyDocuments ++ tallyTarget) = .ok replayed ∧
      replayed.stages.map Stage.document = tallyDocuments ++ tallyTarget) ∧
    (∃ built, Call.performAll tallies tallyCalls = .ok built ∧
      tallies.replay (built.stages.map Stage.document) = .ok { pipeline := built }) ∧
    tallies.replay (tallyDocuments ++ tallyTarget) =
      (tallies.replay tallyDocuments >>= fun replayed => replayed.pipeline.replay tallyTarget) :=
  ⟨⟨_, rfl, replay_faithful.1 tallies _ _ rfl tallyDocuments_keysDistinct rfl⟩,
    ⟨_, rfl, replay_faithful.2.1 tallies _ tallyCalls rfl rfl⟩,
    replay_faithful.2.2 tallies tallyDocuments tallyTarget
      (by simp [tallyDocuments, Stage.terminal?, terminalStages])⟩

end Pipeline

end DocTyping
