import DocTyping.Pipeline.Basic

namespace DocTyping

/-!
# Commands

What can be asked for on a command line, and why an answer may fail.
-/

inductive Command where
  | paths (placeholders : Bool)
  | resolve (path : String) (placeholders checkInArray : Bool)
  | checkFilter
  | checkUpdate
  | checkPipeline
deriving DecidableEq, Repr

namespace Command

def readsInput : Command → Bool
  | paths _ | resolve .. => false
  | checkFilter | checkUpdate | checkPipeline => true

end Command

structure Source where
  schema : String
  collection : Option String := none
  config : Option String := none
deriving DecidableEq, Repr

structure Invocation where
  command : Command
  source : Source
deriving DecidableEq, Repr

inductive CommandError where
  | configuration (error : ConfigurationError)
  | schema (error : SchemaError)
  /-- No collection is named, and the catalog has not exactly one. -/
  | unnamedCollection (count : Nat)
  | undecodableInput
  | emptyInput
  | malformedInput
  | notStageList
  | path (error : PathError)
  | refused (refusal : Refusal)
  | pipeline (error : PipelineError)

namespace CommandError

def kind : CommandError → String
  | configuration _ => "SHAPE_CLI_CONFIG_ERROR"
  | schema _ | unnamedCollection _ => "SHAPE_CLI_SCHEMA_ERROR"
  | undecodableInput | emptyInput | malformedInput | notStageList => "SHAPE_CLI_IO_ERROR"
  | path _ | refused _ | pipeline _ => "SHAPE_CLI_REJECTED"

/-- The code of an error: that of the rejection, else its class. -/
def code : CommandError → String
  | path error => error.code
  | refused refusal => refusal.code
  | pipeline error => error.code
  | other => other.kind

def message : CommandError → String
  | configuration error => error.message
  | schema error => error.report
  | unnamedCollection count => s!"catalog has {count} collections; pass --collection"
  | undecodableInput => FileFault.undecodable.message
  | emptyInput => "Empty input"
  | malformedInput => "JSON error: not a document"
  | notStageList => "Expected a JSON array of stages"
  | path error => error.message
  | refused refusal => refusal.message
  | pipeline error => error.message

def report (error : CommandError) : String := s!"{error.code}: {error.message}"

end CommandError

end DocTyping
