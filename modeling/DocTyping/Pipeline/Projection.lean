import DocTyping.Pipeline.Arguments
import DocTyping.Schema.Reshape

namespace DocTyping

/-!
# Projections

`$project`, `$addFields` with its other name `$set`, and `$unset`.  Objects inside
a specification are flattened into dotted keys first.  A projection that includes
anything builds the output from what it keeps; any other removes and adds.
-/

inductive ProjectionLeaf where
  | keep
  | drop
  | compute
deriving DecidableEq, Repr

/-- Numbers and Booleans keep or drop; every other value is an expression. -/
def ProjectionLeaf.of : Json → ProjectionLeaf
  | .bool true => keep
  | .bool false => drop
  | .number value => if value.toBinary64.isZero then drop else keep
  | _ => compute

/-- Whether an object only groups keys. -/
def groupsKeys (entries : List (String × Json)) : Bool :=
  !entries.isEmpty && (Json.extendedKind? entries).isNone && !hasOperatorKey entries

mutual

/-- The leaves below a key, under dotted keys. -/
def flattenLeaf (key : String) : Json → List (String × Json)
  | .object entries =>
    if groupsKeys entries then flattenEntries (key ++ ".") entries else [(key, .object entries)]
  | value => [(key, value)]
termination_by structural value => value

def flattenEntries (front : String) : List (String × Json) → List (String × Json)
  | [] => []
  | (key, value) :: rest => flattenLeaf (front ++ key) value ++ flattenEntries front rest
termination_by structural entries => entries

end

def specificationLeaves (stage : String) (specification : Json) : Checked (List (String × Json)) :=
  match specification with
  | .object (entry :: entries) =>
    if isOperatorObject (entry :: entries) then
      .error (.argument stage (.expectedNot .fieldObject specification))
    else .ok (flattenEntries "" (entry :: entries))
  | other => .error (.argument stage (.expectedNot .fieldObject other))

/-- The first pair of paths one of which leads to the other. -/
def firstCollision? : List (List String) → Option (List String × List String)
  | [] => none
  | first :: rest =>
    match rest.find? fun second => first.isPrefixOf second || second.isPrefixOf first with
    | some second => some (first, second)
    | none => firstCollision? rest

def checkCollisions (stage : String) (paths : List (List String)) : Checked Unit :=
  match firstCollision? paths with
  | some (first, second) =>
    Checked.within (Text.joinDots second)
      (.error (.argument stage (.collision (Text.joinDots first) (Text.joinDots second))))
  | none => .ok ()

/-- What an inclusion keeps under a name. -/
inductive Kept where
  | field
  | computed (type : Schema)
  | nested (children : List (String × Kept))

namespace Kept

/-- Adds a leaf to a tree at a path of names.  A leaf in the way stays. -/
def plant (leaf : Kept) : List String → Keyed Kept → Keyed Kept
  | [], tree => tree
  | [name], tree => tree.put name leaf
  | name :: rest, tree =>
    match tree.get? name with
    | none => tree.put name (.nested (plant leaf rest []))
    | some (.nested children) => tree.put name (.nested (plant leaf rest children))
    | some _ => tree

mutual

/-- The fields that a tree keeps of an object; no object stands for a scalar. -/
def fields (shape : Option (Shape Schema)) : List (String × Kept) → List (Field Schema)
  | [] => []
  | (name, kept) :: rest => fieldOf shape name kept :: fields shape rest
termination_by structural tree => tree

/-- The field that is kept under a name.  A nested field of a nullable one may be absent. -/
def fieldOf (shape : Option (Shape Schema)) (name : String) : Kept → Field Schema
  | .field =>
    match shape.bind fun shape => shape.child? name with
    | some child =>
      ⟨name, child, shape.all (·.isOptional name), shape.any (·.isNullable name)⟩
    | none => ⟨name, .unknown, true, false⟩
  | .computed type => ⟨name, type, false, false⟩
  | .nested children =>
    match shape.bind fun shape => shape.child? name with
    | some child =>
      let kept := child.underArrays fun node => .object ⟨fields node.shape? children, none⟩
      ⟨name, kept, shape.all (·.isOptional name) || shape.any (·.isNullable name), false⟩
    | none => ⟨name, .object ⟨fields (some .empty) children, none⟩, false, false⟩
termination_by structural kept => kept

end

def apply (tree : Keyed Kept) (source : Schema) : Schema :=
  source.underArrays fun node => .object ⟨fields node.shape? tree, none⟩

end Kept

structure Projected (α : Type) where
  paths : List (List String)
  result : α

namespace Pipeline

def inferAt (pipeline : Pipeline) (key : String) (expression : Json) : Checked Schema :=
  Checked.within key (pipeline.infer expression)

/-- Reads one leaf of an inclusion into a tree.  Only `_id` may be excluded. -/
def includeLeaf (pipeline : Pipeline) (key : String) (value : Json) (names : List String)
    (tree : Keyed Kept) : Checked (Keyed Kept) :=
  match ProjectionLeaf.of value with
  | .keep => do
    pipeline.checkPath key
    return Kept.plant .field names tree
  | .drop =>
    if key = "_id" then .ok tree
    else Checked.within key (.error (.argument "$project" (.mixedProjection key)))
  | .compute => do
    let type ← pipeline.inferAt key value
    return Kept.plant (.computed type) names tree

def excludeLeaf (pipeline : Pipeline) (key : String) (value : Json) (names : List String)
    (schema : Schema) : Checked Schema :=
  match ProjectionLeaf.of value with
  | .compute => do
    let type ← pipeline.inferAt key value
    return Schema.setPath type {} names schema
  | _ => do
    pipeline.checkPath key
    return Schema.removePath names schema

def readLeaves {α : Type} (read : String → Json → List String → α → Checked α) :
    List (String × Json) → α → Checked (Projected α)
  | [], result => .ok ⟨[], result⟩
  | (key, value) :: rest, result => do
    let names ← fieldNames "$project" key
    let next ← read key value names result
    let projected ← readLeaves read rest next
    return { projected with paths := names :: projected.paths }

def projected (pipeline : Pipeline) (specification : Json) : Checked Schema := do
  let leaves ← specificationLeaves "$project" specification
  if leaves.any fun leaf => ProjectionLeaf.of leaf.2 == .keep then do
    let read ← readLeaves pipeline.includeLeaf leaves []
    checkCollisions "$project" read.paths
    return Kept.apply read.result pipeline.schema
  else do
    let read ← readLeaves pipeline.excludeLeaf leaves pipeline.schema
    checkCollisions "$project" read.paths
    return read.result

/-- What is written at each path: a type, or nothing where the field is removed. -/
def readAdditions (pipeline : Pipeline) (stage : String) :
    List (String × Json) → Checked (List (List String × Option Schema))
  | [] => .ok []
  | (key, value) :: rest => do
    let names ← fieldNames stage key
    let type ←
      if value.string? = some "$$REMOVE" then pure none
      else do
        let type ← pipeline.inferAt key value
        pure (some type)
    let additions ← pipeline.readAdditions stage rest
    return (names, type) :: additions

def applyAddition (schema : Schema) (addition : List String × Option Schema) : Schema :=
  match addition with
  | (names, some type) => Schema.setPath type {} names schema
  | (names, none) => Schema.removePath names schema

/-- The schema with fields added; each is typed in the schema before. -/
def withAdditions (pipeline : Pipeline) (stage : String) (specification : Json) :
    Checked Schema := do
  let leaves ← specificationLeaves stage specification
  let additions ← pipeline.readAdditions stage leaves
  checkCollisions stage (additions.map Prod.fst)
  return additions.foldl applyAddition pipeline.schema

def pathTexts : List Json → Checked (List String)
  | [] => .ok []
  | .string text :: rest => do
    let texts ← pathTexts rest
    return text :: texts
  | _ :: _ => .error (.argument "$unset" .pathNotString)

def removals (specification : Json) : Checked (List String) :=
  match specification with
  | .string path => .ok [path]
  | .array (item :: items) => pathTexts (item :: items)
  | other => .error (.argument "$unset" (.expectedNot .pathOrList other))

/-- The schema without the fields at paths that resolve. -/
def removeAll (pipeline : Pipeline) : List String → Schema → Checked Schema
  | [], schema => .ok schema
  | path :: rest, schema => do
    let names ← fieldNames "$unset" path
    pipeline.checkPath path
    pipeline.removeAll rest (Schema.removePath names schema)

def withRemovals (pipeline : Pipeline) (specification : Json) : Checked Schema := do
  let paths ← removals specification
  pipeline.removeAll paths pipeline.schema

end Pipeline

end DocTyping
