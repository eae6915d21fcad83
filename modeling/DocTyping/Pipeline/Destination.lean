import DocTyping.Pipeline.Update

namespace DocTyping

/-!
# Destinations

`$out` and `$merge` write the documents of a pipeline to a collection.  They are
accepted only as the last stage.
-/

/-- Checks the name of a collection, alone or with that of a database. -/
def checkNamespace (stage : String) (value : Json) : Checked Unit :=
  match value with
  | .object entries => do
    checkKnown stage entries ["db", "coll"]
    let _ ← textArgument stage entries "db"
    let _ ← textArgument stage entries "coll"
  | other =>
    demand (other.string?.any fun name => !name.isEmpty) stage (.expectedNot .collectionSpace other)

/-- What a merge may do to a document that is already there. -/
def matchedChoices : List String := ["replace", "keepExisting", "merge", "fail"]

/-- What a merge may do with a document that is not there yet. -/
def unmatchedChoices : List String := ["insert", "discard", "fail"]

def terminalStages : List String := ["$out", "$merge"]

namespace Stage

def terminal? : Json → Option Stage
  | .object [(name, arguments)] =>
    if terminalStages.contains name then some ⟨name, arguments⟩ else none
  | _ => none

end Stage

namespace Pipeline

def checkMergeKey (pipeline : Pipeline) (on : Json) : Checked Unit :=
  match on with
  | .string path => pipeline.checkPath path
  | .array (path :: paths) =>
    checkTexts (.argument "$merge" .mergeKeyNotString) pipeline.checkPath (path :: paths)
  | other => .error (.argument "$merge" (.keyFormNot "on" .pathOrList other))

/-- The pipeline with which a merge updates documents that are already there.  It sees the
incoming document as `new`, unless `let` binds that name. -/
def mergeSeed (pipeline : Pipeline) (entries : Entries) : Checked Pipeline := do
  checkKnown "$merge" entries ["into", "on", "let", "whenMatched", "whenNotMatched"]
  let into ← requiredArgument "$merge" entries "into"
  checkNamespace "$merge" into
  checkGiven entries "on" pipeline.checkMergeKey
  let bindings ← pipeline.letBindings "$merge" entries
  return (pipeline.seed pipeline.schema).bindAll (("new", pipeline.schema) :: bindings)

/-- Checks what a merge does to a document that is already there: a choice, or update stages. -/
def checkMatched (pipeline seed : Pipeline) (action : Json) : Except PipelineError Unit :=
  let refusal := Refusal.argument "$merge" (.invalidChoice "whenMatched" action)
  match action with
  | .array stages => do
    let _ ← seed.replayUpdate stages
  | .string choice =>
    if matchedChoices.contains choice then .ok () else .error (pipeline.reject "$merge" refusal)
  | _ => .error (pipeline.reject "$merge" refusal)

def checkUnmatched (action : Json) : Checked Unit :=
  demand (action.string?.any unmatchedChoices.contains) "$merge"
    (.invalidChoice "whenNotMatched" action)

def checkMerge (pipeline : Pipeline) (entries : Entries) : Except PipelineError Unit := do
  let seed ← pipeline.lift "$merge" (pipeline.mergeSeed entries)
  match entries.get? "whenMatched" with
  | some action => pipeline.checkMatched seed action
  | none => pure ()
  pipeline.lift "$merge" (checkGiven entries "whenNotMatched" checkUnmatched)

def checkDestination (pipeline : Pipeline) (stage : Stage) : Except PipelineError Unit :=
  match stage.name, stage.arguments with
  | "$merge", .object entries => pipeline.checkMerge entries
  | "$merge", .string name => pipeline.lift "$merge" (checkNamespace "$merge" (.string name))
  | "$merge", other =>
    .error (pipeline.reject "$merge" (.argument "$merge" (.expectedNot .object other)))
  | name, target => pipeline.lift name (checkNamespace name target)

def finish (pipeline : Pipeline) (stage : Stage) : Except PipelineError (List Stage) := do
  pipeline.checkDestination stage
  return pipeline.stages ++ [stage]

def out (pipeline : Pipeline) (target : Json) : Except PipelineError (List Stage) :=
  pipeline.finish ⟨"$out", target⟩

def merge (pipeline : Pipeline) (options : Json) : Except PipelineError (List Stage) :=
  pipeline.finish ⟨"$merge", options⟩

end Pipeline

end DocTyping
