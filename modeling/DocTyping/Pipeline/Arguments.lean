import DocTyping.Pipeline.Basic

namespace DocTyping

/-!
# Arguments of stages

What several stages ask of their arguments.
-/

def objectArgument (stage : String) : Json → Checked Entries
  | .object entries => .ok entries
  | other => .error (.argument stage (.expectedNot .object other))

/-- The text under a key that has to be given and not empty. -/
def textArgument (stage : String) (entries : Entries) (key : String) : Checked String :=
  match entries.get? key with
  | some (.string text) =>
    if text.isEmpty then .error (.argument stage (.keyForm key .nonEmptyString)) else .ok text
  | some _ => .error (.argument stage (.keyForm key .nonEmptyString))
  | none => .error (.argument stage (.required key))

/-- The text under a key that may be left out, but not be empty. -/
def textArgument? (stage : String) (entries : Entries) (key : String) : Checked (Option String) :=
  if entries.has key then do
    let text ← textArgument stage entries key
    return some text
  else .ok none

def requiredArgument (stage : String) (entries : Entries) (key : String) : Checked Json :=
  match entries.get? key with
  | some value => .ok value
  | none => .error (.argument stage (.required key))

def checkGiven (entries : Entries) (key : String) (check : Json → Checked Unit) : Checked Unit :=
  match entries.get? key with
  | some value => check value
  | none => .ok ()

def integerArgument (stage : String) (value : Json) : Checked Int :=
  match value.int64? with
  | some integer => .ok integer
  | none => .error (.argument stage (.expectedNot .integer value))

def checkTexts (flaw : Refusal) (check : String → Checked Unit) : List Json → Checked Unit
  | [] => .ok ()
  | .string text :: rest => do
    check text
    checkTexts flaw check rest
  | _ :: _ => .error flaw

def nameSegments (stage path : String) : List Segment → Checked (List String)
  | [] => .ok []
  | .name name :: rest => do
    let names ← nameSegments stage path rest
    return name :: names
  | segment :: _ =>
    Checked.within path (.error (.argument stage (.positional segment path)))

/-- The names of a path to be written; it may use neither indexes nor placeholders. -/
def fieldNames (stage path : String) : Checked (List String) := do
  let parsed ← (FieldPath.parse path).mapError Refusal.ofPath
  nameSegments stage path parsed.segments

def checkTargetPath (stage : String) (entries : Entries) (key : String) : Checked Unit := do
  let path ← textArgument stage entries key
  let _ ← fieldNames stage path

def checkTargetPath? (stage : String) (entries : Entries) (key : String) : Checked Unit :=
  if entries.has key then checkTargetPath stage entries key else .ok ()

def checkFieldName (stage name : String) : Checked Unit :=
  demand (NameFlaw.of? name).isNone stage (.fieldName name)

def metadataSorts : List String := ["textScore", "searchScore"]

def isMetadataSort : List (String × Json) → Bool
  | [("$meta", .string kind)] => metadataSorts.contains kind
  | _ => false

namespace Pipeline

def checkSortKey (pipeline : Pipeline) (stage path : String) (direction : Json) : Checked Unit :=
  match direction with
  | .object entries =>
    Checked.within path (demand (isMetadataSort entries) stage (.metaSort path))
  | value =>
    if value.int64? = some 1 ∨ value.int64? = some (-1) then do
      let _ ← pipeline.resolve path
    else Checked.within path (.error (.argument stage (.sortDirection path value)))

def checkSortKeys (pipeline : Pipeline) (stage : String) : List (String × Json) → Checked Unit
  | [] => .ok ()
  | (path, direction) :: rest => do
    pipeline.checkSortKey stage path direction
    pipeline.checkSortKeys stage rest

/-- Checks a sort: paths with directions or metadata. -/
def checkSort (pipeline : Pipeline) (stage : String) (sort : Json) : Checked Unit :=
  match sort with
  | .object (key :: keys) => pipeline.checkSortKeys stage (key :: keys)
  | other => .error (.argument stage (.expectedNot .sortObject other))

def checkPath (pipeline : Pipeline) (path : String) : Checked Unit := do
  let _ ← pipeline.resolve path

def checkExpression (pipeline : Pipeline) (expression : Json) : Checked Unit := do
  let _ ← pipeline.infer expression

/-- The type of a grouping key: a field reference or an expression object. -/
def groupingKey (pipeline : Pipeline) (stage : String) (key : Json) : Checked Schema :=
  let valid :=
    match key with
    | .string text => Text.startsWithDollar text
    | .object entries => isOperatorObject entries
    | _ => false
  if valid then pipeline.infer key
  else .error (.argument stage (.expectedNot .groupingKey key))

/-- The types of variables, each typed in the current schema. -/
def inferBindings (pipeline : Pipeline) (stage : String) :
    List (String × Json) → Checked Bindings
  | [] => .ok []
  | (name, value) :: rest =>
    if isVariableName name then do
      let type ← pipeline.infer value
      let bindings ← pipeline.inferBindings stage rest
      return (name, type) :: bindings
    else .error (.argument stage (.bindingName name))

/-- The variables that a stage binds under `let`, none when it has no such key. -/
def letBindings (pipeline : Pipeline) (stage : String) (entries : Entries) : Checked Bindings :=
  match entries.get? "let" with
  | some value => do
    let bindings ← objectArgument stage value
    pipeline.inferBindings stage bindings
  | none => .ok []

end Pipeline

end DocTyping
