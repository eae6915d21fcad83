import DocTyping.Command.Line
import DocTyping.Json.Printer
import DocTyping.Path.Pattern
import DocTyping.Pipeline.Replay
import DocTyping.Text.Blank
import DocTyping.Update.Check

namespace DocTyping

/-!
# Answers

A command loads the catalog, picks a collection, loads the configuration, and only
then reads its input.  The first step that fails decides.
-/

structure Target where
  catalog : Catalog
  root : Schema
  config : Configuration

namespace Target

def loadCatalog (files : Files) (path : String) : Except SchemaError Catalog :=
  match files path with
  | .ok text => Catalog.ofText path text
  | .error fault => .error (.unreadable path (.unopened fault))

/-- The schema of the named collection, or of the only one. -/
def pick (catalog : Catalog) (collection : Option String) : Except CommandError Schema :=
  match collection with
  | some name => (catalog.get name).mapError .schema
  | none =>
    match catalog.sole? with
    | some root => .ok root
    | none => .error (.unnamedCollection catalog.collections.length)

def loadConfiguration (files : Files) (path : Option String) :
    Except ConfigurationError Configuration :=
  match path with
  | none => .ok {}
  | some path =>
    match files path with
    | .ok text => Configuration.ofText text
    | .error fault => .error (.unreadable path fault)

def load (files : Files) (source : Source) : Except CommandError Target := do
  let catalog ← (loadCatalog files source.schema).mapError CommandError.schema
  let root ← pick catalog source.collection
  let config ← (loadConfiguration files source.config).mapError CommandError.configuration
  return { catalog, root, config }

def paths (target : Target) (placeholders : Bool) : Json :=
  let options := { target.config.resolveOptions with allowPlaceholders := placeholders }
  .array ((target.root.patterns options).map fun pattern => .string pattern.render)

def resolve (target : Target) (path : String) (placeholders checkInArray : Bool) :
    Except PathError Json := do
  let options :=
    { target.config.resolveOptions with allowPlaceholders := placeholders, checkInArray }
  let resolved ← resolveText target.root path options
  return .object
    [("path", .string resolved.path.render), ("type", resolved.valueType.toJson),
      ("display", .string resolved.valueType.display),
      ("optional", .bool resolved.arrival.optional),
      ("nullable", .bool resolved.arrival.nullable), ("inArray", .bool resolved.arrival.inArray)]

def checkFilter (target : Target) (document : Json) : Except CommandError Json := do
  (document.checkFilter { config := target.config } target.root).mapError CommandError.refused
  return document

def stagesWithSchema (stages schema : Json) : Json :=
  .object [("stages", stages), ("schema", schema)]

/-- Checks an update: a list is an update pipeline, anything else a document of operators. -/
def checkUpdate (target : Target) (document : Json) : Except CommandError Json :=
  match document with
  | .array stages => do
    let start : Pipeline := { schema := target.root, config := target.config }
    let pipeline ← (start.replayUpdate stages).mapError CommandError.pipeline
    return stagesWithSchema pipeline.toJson pipeline.schema.toJson
  | update => do
    (update.checkUpdate target.config target.root).mapError CommandError.refused
    return update

def checkPipeline (target : Target) (document : Json) : Except CommandError Json :=
  match document with
  | .array stages => do
    let start : Pipeline :=
      { schema := target.root, config := target.config, catalog := some target.catalog }
    let replayed ← (start.replay stages).mapError CommandError.pipeline
    return stagesWithSchema replayed.toJson replayed.schema.toJson
  | _ => .error .notStageList

end Target

/-- The document that an input holds; no text stands for bytes that are not one. -/
def readInput (input : Option String) : Except CommandError Json :=
  match input with
  | none => .error .undecodableInput
  | some text =>
    if Text.isBlank text then .error .emptyInput
    else
      match Json.read? text with
      | some document => .ok document
      | none => .error .malformedInput

def Command.answer (command : Command) (target : Target) (input : Option String) :
    Except CommandError Json :=
  match command with
  | paths placeholders => .ok (target.paths placeholders)
  | resolve path placeholders checkInArray =>
    (target.resolve path placeholders checkInArray).mapError .path
  | checkFilter => do
    let document ← readInput input
    target.checkFilter document
  | checkUpdate => do
    let document ← readInput input
    target.checkUpdate document
  | checkPipeline => do
    let document ← readInput input
    target.checkPipeline document

namespace Invocation

def answer (invocation : Invocation) (files : Files) (input : Option String) :
    Except CommandError Json := do
  let target ← Target.load files invocation.source
  invocation.command.answer target input

def readsInput (invocation : Invocation) (files : Files) : Bool :=
  invocation.command.readsInput && (Target.load files invocation.source).isOk

end Invocation

def envelope : Except CommandError Json → Json
  | .ok data => .object [("status", .string "ok"), ("data", data)]
  | .error error =>
    .object
      [("status", .string "error"), ("code", .string error.code),
        ("message", .string error.message)]

structure Outcome where
  exit : Nat
  answer : Option Json := none
  complaint : Option String := none

namespace Outcome

def ofFault : LineFault → Outcome
  | .usage => { exit := 2 }
  | .information => { exit := 0 }

def ofAnswer (answer : Except CommandError Json) : Outcome :=
  match answer with
  | .ok _ => { exit := 0, answer := some (envelope answer) }
  | .error error =>
    { exit := 1, answer := some (envelope answer), complaint := some error.report }

def run (arguments : List String) (files : Files) (input : Option String) : Outcome :=
  match Invocation.parse arguments with
  | .ok invocation => ofAnswer (invocation.answer files input)
  | .error fault => ofFault fault

end Outcome

end DocTyping
