import DocTyping.Update.Payload

namespace DocTyping

/-!
# Updates

`Json.checkUpdate` checks an update against a schema.  Every target resolves and
suits its operator, every payload suits its target, `_id` is written on insertion
only, and no target overlaps another.
-/

/-- Whether one path equals another, or one leads to an ancestor of the other. -/
def FieldPath.overlaps (first second : FieldPath) : Bool :=
  first.leadsTo second || second.leadsTo first

def firstOverlap? : List FieldPath → Option (FieldPath × FieldPath)
  | [] => none
  | first :: rest =>
    match rest.find? first.overlaps with
    | some second => some (first, second)
    | none => firstOverlap? rest

def checkOverlaps (targets : List FieldPath) : Checked Unit :=
  match firstOverlap? targets with
  | some (first, second) => .error (.of (.conflict first.render second.render))
  | none => .ok ()

def resolveTarget (root : Schema) (path : FieldPath) (options : ResolveOptions) :
    Checked UpdateTarget := do
  let resolved ← (path.resolve root options).mapError Refusal.ofPath
  return ⟨path, resolved.arrival⟩

/-- The destination of a rename: another path, outside arrays, to a field of the same type. -/
def checkRename (config : Configuration) (root : Schema) (source : UpdateTarget)
    (payload : Json) : Checked FieldPath :=
  match payload with
  | .string text => do
    if source.arrival.traversedArray then throw (.argument "$rename" .renameFromArray)
    let destination ← (FieldPath.parse text).mapError Refusal.ofPath
    if destination.overlaps source.path then throw (.of (.conflict source.text text))
    let target ← resolveTarget root destination config.resolveOptions
    if target.node != source.node then
      throw (.argument "$rename" (.renameType text target.node source.node))
    if target.arrival.traversedArray then throw (.argument "$rename" .renameIntoArray)
    return destination
  | _ => .error (.argument "$rename" (.expected .destinationPath))

def checkTarget (config : Configuration) (root : Schema) (operator : UpdateOperator)
    (path : FieldPath) : Checked UpdateTarget := do
  if path.head? = some "_id" ∧ operator.payload ≠ .insertValue then
    throw (.argument operator.name .immutableId)
  let target ← resolveTarget root path
    { config.resolveOptions with allowPlaceholders := operator.allowPlaceholders }
  if !operator.capability.admits target.node then
    throw (.of (.incompatible operator.name target.text target.node operator.capability))
  if operator.removesField && !target.arrival.optional && !config.allowUnsetRequired then
    throw (.of (.requiredField operator.name target.text))
  return target

def checkEntry (config : Configuration) (root : Schema) (operator : UpdateOperator)
    (path : FieldPath) (payload : Json) : Checked (List FieldPath) := do
  let target ← checkTarget config root operator path
  if operator.payload = .renameTarget then do
    let destination ← checkRename config root target payload
    return [path, destination]
  else do
    operator.payload.check config operator.name target payload
    return [path]

def checkEntries (config : Configuration) (root : Schema) (operator : UpdateOperator) :
    List (String × Json) → Checked (List FieldPath)
  | [] => .ok []
  | (text, payload) :: rest => do
    let path ← (FieldPath.parse text).mapError Refusal.ofPath
    let targets ← Checked.within path.render (checkEntry config root operator path payload)
    let others ← checkEntries config root operator rest
    return targets ++ others

def checkUpdateOperators (config : Configuration) (root : Schema) :
    List (String × Json) → Checked (List FieldPath)
  | [] => .ok []
  | (name, fields) :: rest =>
    match UpdateOperator.named? name, fields with
    | none, _ => .error (.of (.unknownOperator name .update))
    | some operator, .object entries => do
      let targets ← checkEntries config root operator entries
      let others ← checkUpdateOperators config root rest
      return targets ++ others
    | some _, _ => .error (.argument name (.expected .pathsToValues))

def Json.checkUpdate (config : Configuration) (root : Schema) (update : Json) : Checked Unit :=
  match update with
  | .object (operator :: operators) => do
    let targets ← checkUpdateOperators config root (operator :: operators)
    checkOverlaps targets
  | other => .error (.argument "update" (.expectedNot .updateOperators other))

end DocTyping
