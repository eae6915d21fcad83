import DocTyping.Pipeline.Replay
import DocTyping.Proofs.Expression.Rules

namespace DocTyping

/-!
# Expressions of a list of stages

Where a list of stages states the expressions whose types its schema is made of, and what is
evaluated inside them.  Conditions, literals of filters and the like are not among them, nor is
anything below `$literal`.
-/

namespace Json

/-- A part of an expression that is evaluated with it. -/
inductive EvaluatedIn (part : Json) : Json → Prop
  | here : EvaluatedIn part part
  | item {items : List Json} {item : Json} (member : item ∈ items)
      (inside : EvaluatedIn part item) : EvaluatedIn part (array items)
  | entry {entries : List (String × Json)} {entry : String × Json} (member : entry ∈ entries)
      (evaluated : entry.1 ∉ quotingKeys) (inside : EvaluatedIn part entry.2) :
      EvaluatedIn part (object entries)

variable {part inner value : Json} {entries : List (String × Json)}

theorem EvaluatedIn.trans (evaluated : part.EvaluatedIn inner) (inside : inner.EvaluatedIn value) :
    part.EvaluatedIn value := by
  induction inside with
  | here => exact evaluated
  | item member _ ih => exact .item member ih
  | entry member passed _ ih => exact .entry member passed ih

theorem evaluatedIn_bool_iff {held : Bool} : part.EvaluatedIn (bool held) ↔ part = bool held := by
  constructor
  · intro evaluated
    cases evaluated with
    | here => rfl
  · intro same
    subst same
    exact .here

theorem evaluatedIn_object_iff :
    part.EvaluatedIn (object entries) ↔
      part = object entries ∨
        ∃ entry ∈ entries, entry.1 ∉ quotingKeys ∧ part.EvaluatedIn entry.2 := by
  constructor
  · intro evaluated
    cases evaluated with
    | here => exact .inl rfl
    | entry member evaluated inside => exact .inr ⟨_, member, evaluated, inside⟩
  · intro evaluated
    rcases evaluated with same | ⟨entry, member, evaluated, inside⟩
    · subst same
      exact .here
    · exact .entry member evaluated inside

end Json

inductive Accumulator.Gathers (accumulator : Accumulator) : Json → Json → Prop
  | whole {argument : Json} (form : accumulator.args = .expression) :
      Gathers accumulator argument argument
  | inner {arguments : List (String × Json)} {argument : String × Json}
      (member : argument ∈ arguments) (named : accumulator.inner = some argument.1) :
      Gathers accumulator (.object arguments) argument.2

/-- The stages whose arguments specify fields by path. -/
def specifyingStages : List String := ["$addFields", "$set", "$project"]

/-- An expression whose type a stage writes, or binds to a variable of the pipeline that it
holds. -/
inductive StageExpression : String → Json → Json → Prop
  | leaf {name : String} {arguments : Json} {leaves : List (String × Json)} {leaf : String × Json}
      (specifies : name ∈ specifyingStages)
      (read : specificationLeaves name arguments = .ok leaves) (member : leaf ∈ leaves) :
      StageExpression name arguments leaf.2
  | groupingKey {entries : List (String × Json)} {key : Json}
      (stated : entries.lookup "_id" = some key) : StageExpression "$group" (.object entries) key
  | accumulated {entries : List (String × Json)} {field name : String}
      {argument expression : Json} {accumulator : Accumulator}
      (member : (field, .object [(name, argument)]) ∈ entries)
      (known : Accumulator.named? name = some accumulator)
      (gathers : accumulator.Gathers argument expression) :
      StageExpression "$group" (.object entries) expression
  | countedKey {key : Json} : StageExpression "$sortByCount" key key
  | newRoot {entries : List (String × Json)} {root : Json}
      (stated : entries.lookup "newRoot" = some root) :
      StageExpression "$replaceRoot" (.object entries) root
  | replacement {root : Json} : StageExpression "$replaceWith" root root
  | document {documents : List Json} {document : Json} (member : document ∈ documents) :
      StageExpression "$documents" (.array documents) document
  | variable {entries vars : List (String × Json)} {entry : String × Json}
      (stated : entries.lookup "let" = some (.object vars)) (member : entry ∈ vars) :
      StageExpression "$lookup" (.object entries) entry.2

/-- One list right below another whose documents enter those of the other. -/
inductive Feeds (documents : List Json) : List Json → Prop
  | joined {entries : List (String × Json)} {inner : List Json}
      (listed : .object [("$lookup", .object entries)] ∈ documents)
      (stated : entries.lookup "pipeline" = some (.array inner)) : Feeds documents inner
  | branch {branches : List (String × Json)} {name : String} {inner : List Json}
      (listed : .object [("$facet", .object branches)] ∈ documents)
      (member : (name, .array inner) ∈ branches) : Feeds documents inner

/-- An expression that a list of stages evaluates for its documents. -/
inductive StagesEvaluate : List Json → Json → Prop
  | stage {documents : List Json} {name : String} {arguments expression : Json}
      (listed : .object [(name, arguments)] ∈ documents)
      (stated : StageExpression name arguments expression) : StagesEvaluate documents expression
  | nested {documents inner : List Json} {expression : Json} (feeds : Feeds documents inner)
      (inside : StagesEvaluate inner expression) : StagesEvaluate documents expression

variable {holds : Json → Prop} {documents others inner : List Json} {name : String}
  {arguments expression : Json} {leaves : List (String × Json)}

/-- Whatever a list of stages evaluates for its documents satisfies a condition. -/
def EvaluateOnly (holds : Json → Prop) (documents : List Json) : Prop :=
  ∀ expression, StagesEvaluate documents expression → holds expression

theorem Feeds.mono (feeds : Feeds documents inner) (among : documents ⊆ others) :
    Feeds others inner := by
  cases feeds with
  | joined listed stated => exact .joined (among listed) stated
  | branch listed member => exact .branch (among listed) member

theorem StagesEvaluate.mono (evaluated : StagesEvaluate documents expression)
    (among : documents ⊆ others) : StagesEvaluate others expression := by
  cases evaluated with
  | stage listed stated => exact .stage (among listed) stated
  | nested feeds inside => exact .nested (feeds.mono among) inside

theorem EvaluateOnly.among (only : EvaluateOnly holds others) (among : documents ⊆ others) :
    EvaluateOnly holds documents :=
  fun expression evaluated => only expression (evaluated.mono among)

theorem EvaluateOnly.nested (only : EvaluateOnly holds documents)
    (feeds : Feeds documents inner) : EvaluateOnly holds inner :=
  fun expression evaluated => only expression (.nested feeds evaluated)

theorem EvaluateOnly.stage (only : EvaluateOnly holds [.object [(name, arguments)]])
    (stated : StageExpression name arguments expression) : holds expression :=
  only expression (.stage List.mem_cons_self stated)

/-- The stages that state expressions; conditions, orders and bounds are none. -/
def statingStages : List String :=
  specifyingStages ++
    ["$group", "$sortByCount", "$replaceRoot", "$replaceWith", "$documents", "$lookup"]

theorem StageExpression.stating (stated : StageExpression name arguments expression) :
    name ∈ statingStages := by
  cases stated with
  | leaf specifies => exact List.mem_append_left _ specifies
  | _ => decide

theorem StageExpression.exists_leaf (stated : StageExpression name arguments expression)
    (specifies : name ∈ specifyingStages)
    (read : specificationLeaves name arguments = .ok leaves) :
    ∃ leaf ∈ leaves, leaf.2 = expression := by
  cases stated with
  | leaf _ again member =>
      cases read.symm.trans again
      exact ⟨_, member, rfl⟩
  | _ => exact absurd specifies (by decide)

end DocTyping
