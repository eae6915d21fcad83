import DocTyping.Proofs.Pipeline.FirstFailure

namespace DocTyping

/-!
# Update pipelines as restricted pipelines

An update pipeline takes a stage by the rule that any pipeline takes it by, and
takes no others.  So replaying on it is replaying, on lists of update stages; all
other lists are refused.
-/

namespace Stage

def IsUpdate (stage : Stage) : Prop := stage.name ∈ updateStages

variable {document : Json} {stage : Stage}

theorem IsUpdate.flat (update : stage.IsUpdate) : stage.name ∉ Pipeline.nestingStages := by
  have table : ∀ name ∈ updateStages, name ∉ Pipeline.nestingStages := by decide
  exact table stage.name update

theorem IsUpdate.ordinary (update : stage.IsUpdate) : stage.name ∉ terminalStages := by
  have table : ∀ name ∈ updateStages, name ∉ terminalStages := by decide
  exact table stage.name update

/-- If a document states a stage at all, it is an update stage. -/
def StatesNoOther (document : Json) : Prop :=
  ∀ stage, parse document = .ok stage → stage.IsUpdate

theorem StatesNoOther.terminal? (updates : StatesNoOther document) :
    terminal? document = none := by
  cases terminal : Stage.terminal? document with
  | none => rfl
  | some stage =>
      have update := updates stage (parse_of_terminal terminal)
      have isTerminal := (terminal?_eq_some terminal).2
      exact absurd (by simpa using isTerminal) update.ordinary

end Stage

namespace Pipeline

variable {pipeline next reached : Pipeline} {document : Json} {stage : Stage}
  {documents : List Json}

theorem add_of_flat (flat : stage.name ∉ nestingStages) :
    pipeline.add stage = pipeline.extendFlat stage.name stage.arguments := by
  simp only [nestingStages, List.mem_cons, List.not_mem_nil, or_false, not_or] at flat
  obtain ⟨noFacet, noLookup, noUnion⟩ := flat
  unfold add
  split
  · contradiction
  · contradiction
  · contradiction
  · rfl

theorem extendUpdate_eq_ok :
    pipeline.extendUpdate document = .ok next ↔
      ∃ stage, Stage.parse document = .ok stage ∧ stage.IsUpdate ∧
        pipeline.extendFlat stage.name stage.arguments = .ok next := by
  unfold extendUpdate
  rw [bind_eq_ok]
  constructor
  · intro accepted
    obtain ⟨stage, read, added⟩ := accepted
    split at added
    · rename_i listed
      exact ⟨stage, lift_eq_ok.mp read, by simpa [Stage.IsUpdate] using listed, added⟩
    · contradiction
  · intro accepted
    obtain ⟨stage, read, update, added⟩ := accepted
    refine ⟨stage, lift_eq_ok.mpr read, ?_⟩
    rw [if_pos (by simpa [Stage.IsUpdate] using update)]
    exact added

/-- An update stage is added as any stage is; a document that states no stage raises the same
error. -/
theorem extendUpdate_eq_extend (updates : Stage.StatesNoOther document) :
    pipeline.extendUpdate document = pipeline.extend document := by
  rw [extend_eq_parse, extendUpdate]
  cases read : Stage.parse document with
  | error cause => rfl
  | ok stage =>
      have update := updates stage read
      have listed : updateStages.contains stage.name = true := by
        simpa [Stage.IsUpdate] using update
      change (if updateStages.contains stage.name then _ else _) = pipeline.add stage
      rw [if_pos listed, add_of_flat update.flat]

theorem replay_eq_replayUpdate
    (updates : ∀ document ∈ documents, Stage.StatesNoOther document) :
    pipeline.replay documents =
      (pipeline.replayUpdate documents >>= fun reached => pure { pipeline := reached }) := by
  induction documents generalizing pipeline with
  | nil => rfl
  | cons document rest ih =>
      obtain ⟨head, later⟩ := List.forall_mem_cons.mp updates
      rw [replay_cons fun _ => head.terminal?, replayUpdate, extendUpdate_eq_extend head]
      cases pipeline.extend document with
      | error cause => rfl
      | ok next => exact ih later

theorem updates_of_replayUpdate (accepted : pipeline.replayUpdate documents = .ok reached) :
    ∀ document ∈ documents, ∃ stage, Stage.parse document = .ok stage ∧ stage.IsUpdate := by
  induction documents generalizing pipeline with
  | nil => simp
  | cons document rest ih =>
      obtain ⟨next, head, later⟩ := bind_eq_ok.mp accepted
      obtain ⟨stage, read, update, _⟩ := extendUpdate_eq_ok.mp head
      exact List.forall_mem_cons.mpr ⟨⟨stage, read, update⟩, ih later⟩

theorem statesNoOther_of_parse
    (stated : ∃ stage, Stage.parse document = .ok stage ∧ stage.IsUpdate) :
    Stage.StatesNoOther document := by
  intro other readOther
  obtain ⟨stage, read, update⟩ := stated
  cases read.symm.trans readOther
  exact update

/-- An update pipeline accepts a list exactly if all its documents state update stages and the
list is accepted on the pipeline, and it then has the same stages and schema.  A list that states
no other stages fails on both with the same error, or on neither. -/
theorem replayUpdate_restricts (pipeline : Pipeline) (documents : List Json) :
    ((∃ reached, pipeline.replayUpdate documents = .ok reached) ↔
      (∀ document ∈ documents, ∃ stage, Stage.parse document = .ok stage ∧ stage.IsUpdate) ∧
        ∃ replayed, pipeline.replay documents = .ok replayed) ∧
    (∀ reached replayed, pipeline.replayUpdate documents = .ok reached →
      pipeline.replay documents = .ok replayed →
        replayed.stages = reached.stages ∧ replayed.schema = reached.schema) ∧
    ((∀ document ∈ documents, ∀ stage, Stage.parse document = .ok stage → stage.IsUpdate) →
      ∀ error, pipeline.replayUpdate documents = .error error ↔
        pipeline.replay documents = .error error) := by
  have updates : ∀ reached, pipeline.replayUpdate documents = .ok reached →
      ∀ document ∈ documents, Stage.StatesNoOther document :=
    fun reached accepted document member =>
      statesNoOther_of_parse (updates_of_replayUpdate accepted document member)
  refine ⟨⟨?_, ?_⟩, ?_, ?_⟩
  · intro accepted
    obtain ⟨reached, accepted⟩ := accepted
    refine ⟨updates_of_replayUpdate accepted, { pipeline := reached }, ?_⟩
    rw [replay_eq_replayUpdate (updates reached accepted), accepted]
    rfl
  · intro accepted
    obtain ⟨stated, replayed, accepted⟩ := accepted
    rw [replay_eq_replayUpdate fun document member =>
      statesNoOther_of_parse (stated document member)] at accepted
    obtain ⟨reached, accepted, _⟩ := bind_eq_ok.mp accepted
    exact ⟨reached, accepted⟩
  · intro reached replayed accepted replays
    rw [replay_eq_replayUpdate (updates reached accepted), accepted] at replays
    cases replays
    exact ⟨List.append_nil _, rfl⟩
  · intro only error
    rw [replay_eq_replayUpdate only, bind_eq_error]
    simp [pure, Except.pure]

def repeatedRemoval : List Json :=
  [.object [("$set", .object [("read", .bool true)])], .object [("$unset", .string "title")],
    .object [("$unset", .string "title")]]

theorem replayUpdate_restricts_shelf :
    (∃ replayed, shelf.replay (repeatedRemoval.take 2) = .ok replayed) ∧
      ∃ error, shelf.replayUpdate repeatedRemoval = .error error ∧
        shelf.replay repeatedRemoval = .error error := by
  have accepted : ∃ reached, shelf.replayUpdate (repeatedRemoval.take 2) = .ok reached :=
    isOk_iff_exists.mp (by decide +kernel)
  have refused : ∃ error, shelf.replayUpdate repeatedRemoval = .error error := by
    cases outcome : shelf.replayUpdate repeatedRemoval with
    | error error => exact ⟨error, rfl⟩
    | ok reached =>
        have missing : (shelf.replayUpdate repeatedRemoval).isOk = false := by decide +kernel
        rw [outcome] at missing
        contradiction
  have updates : ∀ document ∈ repeatedRemoval, Stage.StatesNoOther document := by
    simp only [repeatedRemoval, List.forall_mem_cons]
    refine ⟨?_, ?_, ?_, by simp⟩
    all_goals
      intro stage read
      obtain ⟨name, arguments⟩ := stage
      obtain ⟨same, _⟩ := Stage.parse_eq_ok.mp read
      cases same
      simp [Stage.IsUpdate, updateStages]
  obtain ⟨error, refused⟩ := refused
  exact ⟨((replayUpdate_restricts shelf (repeatedRemoval.take 2)).1.mp accepted).2, error, refused,
    ((replayUpdate_restricts shelf repeatedRemoval).2.2 updates error).mp refused⟩

end Pipeline

end DocTyping
