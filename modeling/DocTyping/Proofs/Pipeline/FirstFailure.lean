import DocTyping.Proofs.Pipeline.Replay

namespace DocTyping

/-!
# The first failure

Replaying stops at the first document that is refused, and the error is the one
that this document raises on the pipeline that those before it lead to.  Unless a
stage holds pipelines of its own, its error carries its position and the schema
that flows into it.
-/

namespace Stage

variable {document : Json} {stage : Stage}

theorem parse_eq_ok :
    parse document = .ok stage ↔
      stage.document = document ∧ Text.startsWithDollar stage.name = true := by
  constructor
  · intro parsed
    unfold parse at parsed
    split at parsed
    · obtain ⟨_, marked, made⟩ := bind_eq_ok.mp parsed
      cases made
      exact ⟨rfl, demand_eq_ok.mp marked⟩
    · contradiction
  · intro stated
    obtain ⟨rfl, marked⟩ := stated
    have named : checkName stage.name = .ok () := demand_eq_ok.mpr marked
    simp only [document, parse, named]
    rfl

theorem parse_of_terminal (terminal : terminal? document = some stage) :
    parse document = .ok stage := by
  obtain ⟨rfl, isTerminal⟩ := terminal?_eq_some terminal
  have marked : ∀ name ∈ terminalStages, Text.startsWithDollar name = true := by decide
  exact parse_eq_ok.mpr ⟨rfl, marked stage.name (by simpa using isTerminal)⟩

end Stage

def Json.holdsPipeline : Json → Bool
  | .object [("$facet", _)] => true
  | .object [("$lookup", .object entries)] => Keyed.has entries "pipeline"
  | .object [("$unionWith", .object entries)] => Keyed.has entries "pipeline"
  | .object [("$merge", .object entries)] =>
    ((Keyed.get? entries "whenMatched").bind Json.array?).isSome
  | _ => false

/-- The error stands at the next position of a pipeline, and shows no other schema than the one
that the pipeline leads to. -/
structure PipelineError.Located (error : PipelineError) (pipeline : Pipeline) : Prop where
  position : error.index = pipeline.stages.length
  schema : ∀ schema, error.available? = some schema → schema = pipeline.schema

namespace Pipeline

variable {pipeline next reached : Pipeline} {document : Json} {stage : Stage}
  {error : PipelineError} {documents : List Json} {name : String} {arguments : Json}

/-- Adds a stage by the rule that its name stands for. -/
def add (pipeline : Pipeline) (stage : Stage) : Except PipelineError Pipeline :=
  match stage.name with
  | "$facet" => pipeline.facetOf stage.arguments
  | "$lookup" => pipeline.lookup stage.arguments
  | "$unionWith" => pipeline.unionWith stage.arguments
  | name => pipeline.extendFlat name stage.arguments

/-- What a document raises on a pipeline.  Only the last one may state a destination. -/
inductive Raises (pipeline : Pipeline) (document : Json) (last : Prop) : PipelineError → Prop
  | malformed {cause : Refusal} (unread : Stage.parse document = .error cause) :
      Raises pipeline document last (pipeline.reject "pipeline" cause)
  | misplaced {stage : Stage} (terminal : Stage.terminal? document = some stage)
      (followed : ¬ last) : Raises pipeline document last (pipeline.rejectTerminal stage.name)
  | destination {stage : Stage} {error : PipelineError}
      (terminal : Stage.terminal? document = some stage) (final : last)
      (refused : pipeline.checkDestination stage = .error error) :
      Raises pipeline document last error
  | rule {stage : Stage} {error : PipelineError} (read : Stage.parse document = .ok stage)
      (ordinary : Stage.terminal? document = none) (refused : pipeline.add stage = .error error) :
      Raises pipeline document last error

theorem extend_eq_parse :
    pipeline.extend document =
      (pipeline.lift "pipeline" (Stage.parse document) >>= fun stage => pipeline.add stage) := by
  unfold extend
  split
  · simp only [Stage.parse]
    cases Stage.checkName _ with
    | error cause => rfl
    | ok marked =>
        simp only [add]
        rfl
  · rename_i other
    unfold Stage.parse
    split
    · rename_i name arguments
      exact absurd rfl (other name arguments)
    · rfl

theorem raises_of_ordinary {last : Prop} (ordinary : Stage.terminal? document = none) :
    pipeline.Raises document last error ↔ pipeline.extend document = .error error := by
  rw [extend_eq_parse, bind_eq_error]
  constructor
  · intro raised
    cases raised with
    | malformed unread => exact .inl (mapError_eq_error.mpr ⟨_, unread, rfl⟩)
    | misplaced terminal => simp [ordinary] at terminal
    | destination terminal => simp [ordinary] at terminal
    | rule read _ refused => exact .inr ⟨_, lift_eq_ok.mpr read, refused⟩
  · intro failed
    rcases failed with lifted | ⟨stage, read, refused⟩
    · obtain ⟨cause, unread, rfl⟩ := mapError_eq_error.mp lifted
      exact .malformed unread
    · exact .rule (lift_eq_ok.mp read) ordinary refused

theorem raises_of_terminal {last : Prop} (terminal : Stage.terminal? document = some stage) :
    pipeline.Raises document last error ↔
      (last ∧ pipeline.checkDestination stage = .error error) ∨
        (¬ last ∧ error = pipeline.rejectTerminal stage.name) := by
  constructor
  · intro raised
    cases raised with
    | malformed unread =>
        rw [Stage.parse_of_terminal terminal] at unread
        contradiction
    | misplaced again followed =>
        cases terminal.symm.trans again
        exact .inr ⟨followed, rfl⟩
    | destination again final refused =>
        cases terminal.symm.trans again
        exact .inl ⟨final, refused⟩
    | rule _ ordinary => simp [terminal] at ordinary
  · intro failed
    rcases failed with ⟨final, refused⟩ | ⟨followed, rfl⟩
    · exact .destination terminal final refused
    · exact .misplaced terminal followed

/-- A list fails at its first document or after it. -/
theorem replay_cons_eq_error {rest : List Json} :
    pipeline.replay (document :: rest) = .error error ↔
      pipeline.Raises document (rest = []) error ∨
        ∃ next, pipeline.extend document = .ok next ∧ next.replay rest = .error error := by
  cases terminal : Stage.terminal? document with
  | none =>
      rw [replay_cons fun _ => terminal, bind_eq_error, raises_of_ordinary terminal]
  | some stage =>
      have refused : pipeline.extend document = _ := extend_terminal terminal
      rw [raises_of_terminal terminal]
      by_cases last : rest = []
      · subst last
        rw [replay_terminal terminal, bind_eq_error]
        simp [refused, pure, Except.pure]
      · rw [replay_cons fun empty => absurd empty last, refused]
        simp [last, eq_comm]

/-- The pipeline that documents lead to, each of which adds a stage. -/
def extendAll (pipeline : Pipeline) (documents : List Json) : Except PipelineError Pipeline :=
  documents.foldlM extend pipeline

theorem extendAll_cons {rest : List Json} :
    pipeline.extendAll (document :: rest) =
      (pipeline.extend document >>= fun next => next.extendAll rest) := rfl

theorem replay_eq_error :
    pipeline.replay documents = .error error ↔
      ∃ index document reached, documents[index]? = some document ∧
        pipeline.extendAll (documents.take index) = .ok reached ∧
          reached.Raises document (index + 1 = documents.length) error := by
  induction documents generalizing pipeline with
  | nil => simp [replay]
  | cons first rest ih =>
      have only : (0 + 1 = (first :: rest).length) = (rest = []) := by simp
      have later : ∀ index, (index + 1 + 1 = (first :: rest).length) = (index + 1 = rest.length) := by
        simp
      rw [replay_cons_eq_error]
      constructor
      · intro failed
        rcases failed with raised | ⟨next, extended, failed⟩
        · exact ⟨0, first, pipeline, rfl, rfl, only ▸ raised⟩
        · obtain ⟨index, document, reached, stated, before, raised⟩ := ih.mp failed
          refine ⟨index + 1, document, reached, stated, ?_, later index ▸ raised⟩
          rw [List.take_succ_cons, extendAll_cons, extended]
          exact before
      · intro failed
        obtain ⟨index, document, reached, stated, before, raised⟩ := failed
        cases index with
        | zero =>
            cases stated
            cases before
            exact .inl (only ▸ raised)
        | succ index =>
            rw [List.take_succ_cons, extendAll_cons] at before
            obtain ⟨next, extended, before⟩ := bind_eq_ok.mp before
            exact .inr ⟨next, extended,
              ih.mpr ⟨index, document, reached, stated, before, later index ▸ raised⟩⟩

theorem reject_located {cause : Refusal} : (pipeline.reject name cause).Located pipeline where
  position := rfl
  schema := by
    intro schema shown
    cases shown
    rfl

theorem rejectTerminal_located : (pipeline.rejectTerminal name).Located pipeline where
  position := rfl
  schema := by
    intro schema shown
    contradiction

theorem located_of_lift {α : Type} {checked : Checked α}
    (failed : pipeline.lift name checked = .error error) : error.Located pipeline := by
  obtain ⟨cause, _, rfl⟩ := mapError_eq_error.mp failed
  exact reject_located

theorem located_of_reshape {derived : Checked Schema}
    (failed : pipeline.reshape name arguments derived = .error error) :
    error.Located pipeline := by
  rcases bind_eq_error.mp failed with lifted | ⟨_, _, added⟩
  · exact located_of_lift lifted
  · contradiction

theorem located_of_pass {checked : Checked Unit}
    (failed : pipeline.pass name arguments checked = .error error) : error.Located pipeline := by
  rcases bind_eq_error.mp failed with lifted | ⟨_, _, added⟩
  · exact located_of_lift lifted
  · contradiction

theorem located_of_extendFlat (failed : pipeline.extendFlat name arguments = .error error) :
    error.Located pipeline := by
  unfold extendFlat at failed
  split at failed
  case h_2 | h_3 | h_4 =>
    rcases bind_eq_error.mp failed with lifted | ⟨_, _, refused⟩
    · exact located_of_lift lifted
    · exact located_of_pass refused
  case h_12 =>
    split at failed
    · exact located_of_reshape failed
    · cases failed
      exact reject_located
  case h_15 =>
    rcases bind_eq_error.mp failed with lifted | ⟨_, _, refused⟩
    · exact located_of_lift lifted
    · exact located_of_reshape refused
  case h_24 | h_25 =>
    cases failed
    exact rejectTerminal_located
  case h_26 =>
    cases failed
    exact reject_located
  all_goals first | exact located_of_pass failed | exact located_of_reshape failed

theorem replayUnder_of_absent {seed : Pipeline} {entries : List (String × Json)}
    (absent : Keyed.has entries "pipeline" = false) :
    pipeline.replayUnder name seed entries = .ok seed := by
  induction entries with
  | nil => rfl
  | cons entry rest ih =>
      obtain ⟨key, value⟩ := entry
      simp only [Keyed.has, List.any_cons, Bool.or_eq_false_iff, beq_eq_false_iff_ne] at absent
      rw [replayUnder, if_neg absent.1]
      exact ih absent.2

theorem located_of_lookup {entries : List (String × Json)}
    (absent : Keyed.has entries "pipeline" = false)
    (failed : pipeline.lookup (.object entries) = .error error) : error.Located pipeline := by
  simp only [lookup, replayUnder_of_absent absent] at failed
  rcases bind_eq_error.mp failed with lifted | ⟨join, _, failed⟩
  · exact located_of_lift lifted
  · rcases bind_eq_error.mp failed with lifted | ⟨seed, _, added⟩
    · exact located_of_lift lifted
    · contradiction

theorem located_of_unionWith {entries : List (String × Json)}
    (absent : Keyed.has entries "pipeline" = false)
    (failed : pipeline.unionWith (.object entries) = .error error) : error.Located pipeline := by
  simp only [unionWith, replayUnder_of_absent absent] at failed
  rcases bind_eq_error.mp failed with lifted | ⟨seed, _, added⟩
  · exact located_of_lift lifted
  · contradiction

theorem located_of_checkMatched {seed : Pipeline} {action : Json}
    (choice : action.array? = none)
    (failed : pipeline.checkMatched seed action = .error error) : error.Located pipeline := by
  unfold checkMatched at failed
  split at failed
  · contradiction
  · split at failed
    · contradiction
    · cases failed
      exact reject_located
  · cases failed
    exact reject_located

theorem located_of_checkMerge {entries : Entries}
    (choice : ((entries.get? "whenMatched").bind Json.array?).isSome = false)
    (failed : pipeline.checkMerge entries = .error error) : error.Located pipeline := by
  unfold checkMerge at failed
  rcases bind_eq_error.mp failed with lifted | ⟨seed, _, failed⟩
  · exact located_of_lift lifted
  · cases given : entries.get? "whenMatched" with
    | some action =>
        have noList : action.array? = none := by simpa [given] using choice
        simp only [given] at failed
        rcases bind_eq_error.mp failed with refused | ⟨_, _, lifted⟩
        · exact located_of_checkMatched noList refused
        · exact located_of_lift lifted
    | none =>
        simp only [given] at failed
        exact located_of_lift failed

theorem located_of_checkDestination (flat : stage.document.holdsPipeline = false)
    (failed : pipeline.checkDestination stage = .error error) : error.Located pipeline := by
  obtain ⟨name, arguments⟩ := stage
  unfold checkDestination at failed
  split at failed
  · rename_i sameName sameArguments
    cases sameName
    cases sameArguments
    exact located_of_checkMerge flat failed
  · exact located_of_lift failed
  · cases failed
    exact reject_located
  · exact located_of_lift failed

theorem located_of_add (flat : stage.document.holdsPipeline = false)
    (failed : pipeline.add stage = .error error) : error.Located pipeline := by
  obtain ⟨name, arguments⟩ := stage
  unfold add at failed
  split at failed
  · rename_i same
    cases same
    contradiction
  · rename_i same
    cases same
    cases arguments with
    | object entries => exact located_of_lookup flat failed
    | _ =>
        cases failed
        exact reject_located
  · rename_i same
    cases same
    cases arguments with
    | object entries => exact located_of_unionWith flat failed
    | _ => exact located_of_pass failed
  · exact located_of_extendFlat failed

/-- A document that holds no pipeline raises an error that shows where it stands. -/
theorem Raises.located {last : Prop} (raised : pipeline.Raises document last error)
    (flat : document.holdsPipeline = false) : error.Located pipeline := by
  cases raised with
  | malformed => exact reject_located
  | misplaced => exact rejectTerminal_located
  | destination terminal _ refused =>
      rw [← (Stage.terminal?_eq_some terminal).1] at flat
      exact located_of_checkDestination flat refused
  | rule read _ refused =>
      rw [← (Stage.parse_eq_ok.mp read).1] at flat
      exact located_of_add flat refused

theorem extendAll_length (extended : pipeline.extendAll documents = .ok reached) :
    reached.stages.length = pipeline.stages.length + documents.length := by
  induction documents generalizing pipeline with
  | nil =>
      cases extended
      rfl
  | cons document rest ih =>
      rw [extendAll_cons] at extended
      obtain ⟨next, first, later⟩ := bind_eq_ok.mp extended
      obtain ⟨_, _, _, _, added⟩ := extend_grows first
      have counted := ih later
      rw [added.stages, List.length_append] at counted
      simp only [List.length_cons, List.length_nil] at counted ⊢
      omega

/-- Replaying fails with an error exactly if the documents before some position add their stages
and the one at that position raises the error on the pipeline that they lead to.  The error of a
document that holds no pipeline has that position, counted from the first stage of the pipeline,
and the schema that flows into it. -/
theorem replay_first_failure :
    (pipeline.replay documents = .error error ↔
      ∃ index document reached, documents[index]? = some document ∧
        pipeline.extendAll (documents.take index) = .ok reached ∧
          reached.Raises document (index + 1 = documents.length) error) ∧
    ∀ index document reached, documents[index]? = some document →
      pipeline.extendAll (documents.take index) = .ok reached →
        reached.Raises document (index + 1 = documents.length) error →
          document.holdsPipeline = false →
            error.index = pipeline.stages.length + index ∧
              ∀ schema, error.available? = some schema → schema = reached.schema := by
  refine ⟨replay_eq_error, ?_⟩
  intro index document reached stated before raised flat
  have inside : index < documents.length := (List.getElem?_eq_some_iff.mp stated).1
  have located := raised.located flat
  have length := extendAll_length before
  rw [List.length_take, Nat.min_eq_left (Nat.le_of_lt inside)] at length
  exact ⟨located.position.trans length, located.schema⟩

def shelf : Pipeline :=
  { schema := closedObject [("title", .string)], stages := [⟨"$skip", .ofInt 2⟩] }

def titleOrder : Json := .object [("$sort", .object [("title", .ofInt 1)])]

/-- An order by the title once there is none. -/
def shelfDocuments : List Json :=
  [.object [("$unset", .string "title")], titleOrder, .object [("$limit", .ofInt 3)]]

theorem replay_first_failure_shelf :
    ∃ error reached, shelf.replay shelfDocuments = .error error ∧
      shelf.extendAll (shelfDocuments.take 1) = .ok reached ∧
      reached.Raises titleOrder (1 + 1 = shelfDocuments.length) error ∧
      error.index = shelf.stages.length + 1 ∧
      ∀ schema, error.available? = some schema → schema = reached.schema := by
  have before : shelf.extendAll (shelfDocuments.take 1) =
      .ok (shelf.append "$unset" (.string "title") (.object .empty)) := rfl
  have raised : ∃ error, Raises (shelf.append "$unset" (.string "title") (.object .empty))
      titleOrder (1 + 1 = shelfDocuments.length) error :=
    ⟨_, .rule rfl rfl rfl⟩
  obtain ⟨error, raised⟩ := raised
  have failed := replay_first_failure.1.mpr ⟨1, titleOrder, _, rfl, before, raised⟩
  exact ⟨error, _, failed, before, raised,
    replay_first_failure.2 1 titleOrder _ rfl before raised rfl⟩

end Pipeline

end DocTyping
