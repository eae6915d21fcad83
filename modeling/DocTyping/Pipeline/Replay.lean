import DocTyping.Pipeline.Destination

namespace DocTyping

/-!
# Replay

Stage documents are replayed on a pipeline one by one, each against the schema
that the one before leads to.  A destination is accepted as the last document.
Stages may hold pipelines of their own, which are replayed first; a refusal in one
of those keeps its own position.
-/

structure Replay where
  pipeline : Pipeline
  terminal : Option Stage := none

namespace Replay

/-- The schema of the documents before they reach a destination. -/
def schema (replay : Replay) : Schema := replay.pipeline.schema

def stages (replay : Replay) : List Stage := replay.pipeline.stages ++ replay.terminal.toList

def toJson (replay : Replay) : Json := .array (replay.stages.map Stage.document)

/-- The pipeline, if no destination follows; otherwise the refusal of the destination. -/
def withoutTerminal (replay : Replay) (refuse : String → PipelineError) :
    Except PipelineError Pipeline :=
  match replay.terminal with
  | some stage => .error (refuse stage.name)
  | none => .ok replay.pipeline

end Replay

namespace Pipeline

mutual

def replay (pipeline : Pipeline) : List Json → Except PipelineError Replay
  | [] => .ok { pipeline }
  | document :: rest =>
    match rest, Stage.terminal? document with
    | [], some stage => do
      pipeline.checkDestination stage
      return { pipeline, terminal := some stage }
    | rest, _ => do
      let next ← extend pipeline document
      replay next rest
termination_by structural documents => documents

def extend (pipeline : Pipeline) : Json → Except PipelineError Pipeline
  | .object [(name, arguments)] => do
    pipeline.lift "pipeline" (Stage.checkName name)
    match name with
    | "$facet" => facetOf pipeline arguments
    | "$lookup" => lookup pipeline arguments
    | "$unionWith" => unionWith pipeline arguments
    | name => pipeline.extendFlat name arguments
  | other => .error (pipeline.reject "pipeline" (Stage.formRefusal other))
termination_by structural document => document

def facetOf (pipeline : Pipeline) : Json → Except PipelineError Pipeline
  | .object branches => do
    let replayed ← replayBranches pipeline branches
    pipeline.facet replayed
  | other => .error (pipeline.reject "$facet" (.argument "$facet" (.expectedNot .object other)))
termination_by structural arguments => arguments

def replayBranches (pipeline : Pipeline) :
    List (String × Json) → Except PipelineError (List (String × Pipeline))
  | [] => .ok []
  | (name, stages) :: rest => do
    let branch ← replayBranch pipeline name stages
    let branches ← replayBranches pipeline rest
    return (name, branch) :: branches
termination_by structural branches => branches

def replayBranch (pipeline : Pipeline) (name : String) : Json → Except PipelineError Pipeline
  | .array stages => do
    let replayed ← replay (pipeline.seed pipeline.schema) stages
    replayed.withoutTerminal fun stage =>
      pipeline.reject "$facet" (.argument "$facet" (.branchStage name stage))
  | _ => .error (pipeline.reject "$facet" (.argument "$facet" (.branchForm name)))
termination_by structural stages => stages

/-- Joins with documents of a collection, as they leave a pipeline of the stage's own if it has
one. -/
def lookup (pipeline : Pipeline) : Json → Except PipelineError Pipeline
  | .object entries => do
    let join ← pipeline.lift "$lookup" (pipeline.readJoin entries)
    let seed ← pipeline.lift "$lookup" (pipeline.joinSeed join entries)
    let joined ← replayUnder pipeline "$lookup" seed entries
    return pipeline.append "$lookup" (.object entries) (join.attach pipeline.schema joined.schema)
  | other => .error (pipeline.reject "$lookup" (.argument "$lookup" (.expectedNot .object other)))
termination_by structural arguments => arguments

/-- Appends the documents of a collection, as they leave a pipeline of the stage's own if it has
one. -/
def unionWith (pipeline : Pipeline) : Json → Except PipelineError Pipeline
  | .object entries => do
    let seed ← pipeline.lift "$unionWith" (pipeline.unionSeed entries)
    let _ ← replayUnder pipeline "$unionWith" seed entries
    return pipeline.append "$unionWith" (.object entries) pipeline.schema
  | other =>
    pipeline.pass "$unionWith" other
      (demand (other.string?.any fun name => !name.isEmpty) "$unionWith"
        (.expectedNot .unionSource other))
termination_by structural arguments => arguments

/-- Replays the pipeline of a stage's own on another one, which it leaves as it is where the stage
has none. -/
def replayUnder (pipeline : Pipeline) (stage : String) (seed : Pipeline) :
    List (String × Json) → Except PipelineError Pipeline
  | [] => .ok seed
  | (key, value) :: rest =>
    if key = "pipeline" then replayNested pipeline stage seed value
    else replayUnder pipeline stage seed rest
termination_by structural entries => entries

/-- Replays the pipeline of a stage's own; it may not end with a destination. -/
def replayNested (pipeline : Pipeline) (stage : String) (seed : Pipeline) :
    Json → Except PipelineError Pipeline
  | .array stages => do
    let replayed ← replay seed stages
    replayed.withoutTerminal fun terminal =>
      pipeline.reject stage (.argument stage (.nestedTerminal terminal))
  | _ => .error (pipeline.reject stage (.argument stage (.keyForm "pipeline" .stageList)))
termination_by structural value => value

end

end Pipeline

end DocTyping
