import DocTyping.Pipeline.Stages

namespace DocTyping

/-!
# Update pipelines

An update may be a pipeline of stages that reshape one document.
-/

def updateStages : List String :=
  ["$addFields", "$set", "$project", "$unset", "$replaceRoot", "$replaceWith"]

namespace Pipeline

def extendUpdate (pipeline : Pipeline) (document : Json) : Except PipelineError Pipeline := do
  let stage ← pipeline.lift "pipeline" (Stage.parse document)
  if updateStages.contains stage.name then pipeline.extendFlat stage.name stage.arguments
  else throw (pipeline.reject stage.name (.of (.unknownOperator stage.name .updatePipeline)))

def replayUpdate : Pipeline → List Json → Except PipelineError Pipeline
  | pipeline, [] => .ok pipeline
  | pipeline, document :: rest => do
    let next ← pipeline.extendUpdate document
    replayUpdate next rest

end Pipeline

end DocTyping
