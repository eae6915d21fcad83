import DocTyping.Filter.Check

namespace DocTyping

/-!
# Pipelines

A pipeline is a list of accepted stages with the schema of the documents that
leave the last one.  It is a value: adding a stage makes a new pipeline.
-/

structure Stage where
  name : String
  arguments : Json
deriving Repr, Inhabited

namespace Stage

def document (stage : Stage) : Json := .object [(stage.name, stage.arguments)]

def formRefusal : Json → Refusal
  | .object entries => .argument "pipeline" (.stageKeys entries.length)
  | other => .argument "pipeline" (.expectedNot .stageDocument other)

def checkName (name : String) : Checked Unit :=
  demand (Text.startsWithDollar name) "pipeline" (.stageName name)

def parse : Json → Checked Stage
  | .object [(name, arguments)] => do
    checkName name
    return ⟨name, arguments⟩
  | other => .error (formRefusal other)

end Stage

inductive StageFault where
  /-- The arguments do not fit the schema that flows into the stage. -/
  | refused (available : Schema) (cause : Refusal)
  /-- The stage ends pipelines, and something follows it. -/
  | notLast
deriving Repr

structure PipelineError where
  index : Nat
  stage : String
  fault : StageFault
deriving Repr

namespace PipelineError

def code (error : PipelineError) : String :=
  match error.fault with
  | .refused .. => "SHAPE_STAGE_VALIDATION"
  | .notLast => "SHAPE_TERMINAL_STAGE"

def message (error : PipelineError) : String :=
  match error.fault with
  | .refused _ cause => s!"stage {error.index} ({error.stage}): {cause.message}"
  | .notLast => s!"stage {error.index} ({error.stage}) must be the last stage of the pipeline"

def report (error : PipelineError) : String := s!"[REJECT] {error.code}: {error.message}"

def cause? (error : PipelineError) : Option Refusal :=
  match error.fault with
  | .refused _ cause => some cause
  | .notLast => none

def available? (error : PipelineError) : Option Schema :=
  match error.fault with
  | .refused available _ => some available
  | .notLast => none

/-- The code of the refusal behind an error, else its own. -/
def causeCode (error : PipelineError) : String :=
  (error.cause?.map Refusal.code).getD error.code

end PipelineError

structure Pipeline where
  /-- The schema of the documents that leave the last stage. -/
  schema : Schema
  stages : List Stage := []
  config : Configuration := {}
  /-- The collections that joins may read. -/
  catalog : Option Catalog := none
  /-- The variables that every stage sees. -/
  bindings : Bindings := []

namespace Pipeline

def forCollection (catalog : Catalog) (collection : String) : Except SchemaError Pipeline := do
  let schema ← catalog.get collection
  return { schema, catalog := some catalog }

def scope (pipeline : Pipeline) : Scope :=
  .ofRoot pipeline.schema pipeline.config pipeline.bindings

def infer (pipeline : Pipeline) (expression : Json) : Checked Schema :=
  expression.infer pipeline.scope

def checkFilter (pipeline : Pipeline) (root : Schema) (filter : Json) : Checked Unit :=
  filter.checkFilter { config := pipeline.config, bindings := pipeline.bindings } root

def resolveIn (pipeline : Pipeline) (root : Schema) (path : String) : Checked Resolved :=
  resolveChecked root path pipeline.config.resolveOptions

def resolve (pipeline : Pipeline) (path : String) : Checked Resolved :=
  pipeline.resolveIn pipeline.schema path

def foreign (pipeline : Pipeline) (collection : String) : Checked Schema :=
  match pipeline.catalog with
  | some catalog => (catalog.get collection).mapError Refusal.ofSchema
  | none => .error (.of (.noCatalog collection))

/-- An empty pipeline over a schema, in the same surroundings. -/
def seed (pipeline : Pipeline) (schema : Schema) : Pipeline :=
  { pipeline with schema, stages := [] }

/-- Binds variables for all stages, the last one innermost. -/
def bindAll (pipeline : Pipeline) (added : Bindings) : Pipeline :=
  { pipeline with bindings := added.reverse ++ pipeline.bindings }

def append (pipeline : Pipeline) (name : String) (arguments : Json) (schema : Schema) :
    Pipeline :=
  { pipeline with schema, stages := pipeline.stages ++ [⟨name, arguments⟩] }

def reject (pipeline : Pipeline) (stage : String) (cause : Refusal) : PipelineError :=
  ⟨pipeline.stages.length, stage, .refused pipeline.schema cause⟩

def rejectTerminal (pipeline : Pipeline) (stage : String) : PipelineError :=
  ⟨pipeline.stages.length, stage, .notLast⟩

def lift {α : Type} (pipeline : Pipeline) (stage : String) (checked : Checked α) :
    Except PipelineError α :=
  checked.mapError (pipeline.reject stage)

def reshape (pipeline : Pipeline) (name : String) (arguments : Json) (schema : Checked Schema) :
    Except PipelineError Pipeline := do
  let schema ← pipeline.lift name schema
  return pipeline.append name arguments schema

def pass (pipeline : Pipeline) (name : String) (arguments : Json) (checked : Checked Unit) :
    Except PipelineError Pipeline := do
  pipeline.lift name checked
  return pipeline.append name arguments pipeline.schema

def requireFirst (pipeline : Pipeline) (stage : String) : Checked Unit :=
  demand pipeline.stages.isEmpty stage .notFirst

end Pipeline

end DocTyping
