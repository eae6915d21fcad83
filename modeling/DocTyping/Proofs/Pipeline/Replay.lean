import DocTyping.Proofs.Pipeline.Stages

namespace DocTyping

/-!
# Replayed documents

Replaying takes one document after the other, so it can be interrupted at every
document that is no destination.  What it leads to consists of the stages that
the documents state, each as it is stated.
-/

namespace Stage

theorem terminal?_eq_some {document : Json} {stage : Stage}
    (found : terminal? document = some stage) :
    stage.document = document ∧ terminalStages.contains stage.name = true := by
  unfold terminal? at found
  split at found
  · split at found
    · rename_i isTerminal
      cases found
      exact ⟨rfl, isTerminal⟩
    · contradiction
  · contradiction

end Stage

namespace Pipeline

variable {pipeline next : Pipeline} {document : Json} {stage : Stage}

theorem replay_terminal (terminal : Stage.terminal? document = some stage) :
    pipeline.replay [document] =
      (pipeline.checkDestination stage >>= fun _ => pure { pipeline, terminal := some stage }) :=
  replay.eq_2 pipeline document stage terminal

theorem replay_cons {rest : List Json}
    (ordinary : rest = [] → Stage.terminal? document = none) :
    pipeline.replay (document :: rest) =
      (pipeline.extend document >>= fun next => next.replay rest) := by
  refine replay.eq_3 pipeline document rest ?_
  intro stage last terminal
  simp [ordinary last] at terminal

theorem checkName_eq_ok {name : String} (named : Text.startsWithDollar name = true) :
    pipeline.lift "pipeline" (Stage.checkName name) = .ok () :=
  lift_eq_ok.mpr (demand_eq_ok.mpr named)

/-- The names of the stages that hold pipelines of their own. -/
def nestingStages : List String := ["$facet", "$lookup", "$unionWith"]

theorem extend_flat {name : String} {arguments : Json}
    (named : Text.startsWithDollar name = true) (flat : name ∉ nestingStages) :
    pipeline.extend (.object [(name, arguments)]) = pipeline.extendFlat name arguments := by
  simp only [nestingStages, List.mem_cons, List.not_mem_nil, or_false, not_or] at flat
  rw [extend.eq_4 pipeline name arguments flat.1 flat.2.1 flat.2.2, checkName_eq_ok named]
  rfl

theorem extend_terminal (terminal : Stage.terminal? document = some stage) :
    pipeline.extend document = .error (pipeline.rejectTerminal stage.name) := by
  obtain ⟨rfl, isTerminal⟩ := Stage.terminal?_eq_some terminal
  obtain ⟨name, arguments⟩ := stage
  simp only [terminalStages, List.contains_eq_mem, List.mem_cons, List.not_mem_nil, or_false,
    decide_eq_true_eq] at isTerminal
  rcases isTerminal with rfl | rfl
  · change pipeline.extend (.object [("$out", arguments)]) = _
    rw [extend_flat rfl (by decide)]
    rfl
  · change pipeline.extend (.object [("$merge", arguments)]) = _
    rw [extend_flat rfl (by decide)]
    rfl

/-- An accepted list starts with a stage that is added, or is a destination and nothing else. -/
theorem replay_cons_eq_ok {rest : List Json} {replayed : Replay} :
    pipeline.replay (document :: rest) = .ok replayed ↔
      (∃ next, pipeline.extend document = .ok next ∧ next.replay rest = .ok replayed) ∨
        rest = [] ∧ ∃ stage, Stage.terminal? document = some stage ∧
          pipeline.checkDestination stage = .ok () ∧
            replayed = { pipeline, terminal := some stage } := by
  cases terminal : Stage.terminal? document with
  | none =>
      rw [replay_cons fun _ => terminal, bind_eq_ok]
      simp
  | some stage =>
      have refused : pipeline.extend document = _ := extend_terminal terminal
      by_cases last : rest = []
      · subst last
        rw [replay_terminal terminal, unit_bind_eq_ok, pure_eq_ok]
        simp [refused, eq_comm]
      · rw [replay_cons fun empty => absurd empty last, refused]
        simp [last]

theorem replay_append (first second : List Json)
    (ordinary : ∀ document ∈ first, Stage.terminal? document = none) :
    pipeline.replay (first ++ second) =
      (pipeline.replay first >>= fun replayed => replayed.pipeline.replay second) := by
  induction first generalizing pipeline with
  | nil => rfl
  | cons document rest ih =>
      obtain ⟨head, tail⟩ := List.forall_mem_cons.mp ordinary
      rw [List.cons_append, replay_cons fun _ => head, replay_cons fun _ => head]
      cases pipeline.extend document with
      | error cause => rfl
      | ok next => exact ih tail

theorem lookup_adds {arguments : Json} (joined : pipeline.lookup arguments = .ok next) :
    pipeline.Adds ⟨"$lookup", arguments⟩ next := by
  cases arguments with
  | object entries =>
      simp only [lookup, bind_eq_ok, pure_eq_ok] at joined
      obtain ⟨_, _, _, _, _, _, added⟩ := joined
      exact ⟨_, added.symm⟩
  | _ => contradiction

theorem unionWith_adds {arguments : Json} (joined : pipeline.unionWith arguments = .ok next) :
    pipeline.Adds ⟨"$unionWith", arguments⟩ next := by
  cases arguments with
  | object entries =>
      simp only [unionWith, bind_eq_ok, pure_eq_ok] at joined
      obtain ⟨_, _, _, _, added⟩ := joined
      exact ⟨_, added.symm⟩
  | _ => exact adds_of_pass joined

theorem facetOf_grows {arguments : Json} (accepted : pipeline.facetOf arguments = .ok next) :
    pipeline.Grows "$facet" next := by
  cases arguments with
  | object entries =>
      obtain ⟨branches, _, faceted⟩ := bind_eq_ok.mp accepted
      exact ⟨_, adds_of_reshape faceted⟩
  | _ => contradiction

theorem extend_grows (extended : pipeline.extend document = .ok next) :
    ∃ name arguments, document = .object [(name, arguments)] ∧ pipeline.Grows name next := by
  unfold extend at extended
  split at extended
  · rename_i name arguments
    obtain ⟨_, _, stated⟩ := bind_eq_ok.mp extended
    refine ⟨name, arguments, rfl, ?_⟩
    split at stated
    · exact facetOf_grows stated
    · exact ⟨_, lookup_adds stated⟩
    · exact ⟨_, unionWith_adds stated⟩
    · obtain ⟨_, added, _⟩ := extendFlat_states stated
      exact ⟨_, added⟩
  · contradiction

theorem withoutTerminal_eq_ok {replayed : Replay} {refuse : String → PipelineError}
    (kept : replayed.withoutTerminal refuse = .ok next) :
    replayed = { pipeline := next } := by
  obtain ⟨pipeline, terminal⟩ := replayed
  cases terminal with
  | none => cases kept; rfl
  | some stage => contradiction

/-- A branch of a facet is a list that is replayed on the current schema, and ends with no
destination. -/
theorem replayBranch_eq_ok {name : String} {stages : Json} {branch : Pipeline} :
    pipeline.replayBranch name stages = .ok branch ↔
      ∃ documents, stages = .array documents ∧
        (pipeline.seed pipeline.schema).replay documents = .ok { pipeline := branch } := by
  cases stages with
  | array documents =>
      simp only [replayBranch, bind_eq_ok, Json.array.injEq, exists_eq_left']
      constructor
      · intro replayed
        obtain ⟨replayed, replays, kept⟩ := replayed
        rw [withoutTerminal_eq_ok kept] at replays
        exact replays
      · intro replays
        exact ⟨_, replays, rfl⟩
  | _ => simp [replayBranch]

mutual

/-- The stages of a replay are the stages before it and the replayed documents. -/
theorem replay_documents (documents : List Json) {pipeline : Pipeline} {replayed : Replay}
    (distinct : ∀ document ∈ documents, document.KeysDistinct)
    (accepted : pipeline.replay documents = .ok replayed) :
    replayed.stages.map Stage.document = pipeline.stages.map Stage.document ++ documents := by
  match documents with
  | [] =>
      cases accepted
      simp [Replay.stages]
  | document :: rest =>
      rcases replay_cons_eq_ok.mp accepted with
        ⟨next, extended, continued⟩ | ⟨rfl, stage, terminal, _, rfl⟩
      · obtain ⟨head, tail⟩ := List.forall_mem_cons.mp distinct
        obtain ⟨stage, stated, added⟩ := extend_adds document head extended
        have later := replay_documents rest tail continued
        rw [later, added.stages, List.map_append, List.append_assoc, ← stated]
        rfl
      · simp [Replay.stages, (Stage.terminal?_eq_some terminal).1]

theorem extend_adds (document : Json) {pipeline next : Pipeline} (distinct : document.KeysDistinct)
    (extended : pipeline.extend document = .ok next) :
    ∃ stage : Stage, stage.document = document ∧ pipeline.Adds stage next := by
  match document with
  | .object [(name, arguments)] =>
      have argumentsDistinct : arguments.KeysDistinct :=
        (Json.keysDistinct_object_iff.mp distinct).2 (name, arguments) (by simp)
      refine ⟨⟨name, arguments⟩, rfl, ?_⟩
      unfold extend at extended
      obtain ⟨_, _, stated⟩ := bind_eq_ok.mp extended
      split at stated
      · exact facetOf_adds arguments argumentsDistinct stated
      · exact lookup_adds stated
      · exact unionWith_adds stated
      · exact extendFlat_adds argumentsDistinct stated
  | .object [] | .object (_ :: _ :: _) => contradiction
  | .null | .bool _ | .number _ | .string _ | .array _ => contradiction

theorem facetOf_adds (arguments : Json) {pipeline next : Pipeline}
    (distinct : arguments.KeysDistinct) (accepted : pipeline.facetOf arguments = .ok next) :
    pipeline.Adds ⟨"$facet", arguments⟩ next := by
  cases arguments with
  | object entries =>
      obtain ⟨_, each⟩ := Json.keysDistinct_object_iff.mp distinct
      simp only [facetOf, bind_eq_ok] at accepted
      obtain ⟨branches, replayed, faceted⟩ := accepted
      rw [← replayBranches_documents entries each replayed]
      exact facet_adds faceted
  | _ => contradiction

theorem replayBranches_documents (entries : List (String × Json)) {pipeline : Pipeline}
    {branches : List (String × Pipeline)} (distinct : ∀ entry ∈ entries, entry.2.KeysDistinct)
    (replayed : pipeline.replayBranches entries = .ok branches) :
    branches.map (fun branch => (branch.1, branch.2.toJson)) = entries := by
  match entries with
  | [] =>
      cases replayed
      rfl
  | (name, stages) :: rest =>
      simp only [replayBranches, bind_eq_ok, pure_eq_ok] at replayed
      obtain ⟨branch, first, others, later, rfl⟩ := replayed
      obtain ⟨head, tail⟩ := List.forall_mem_cons.mp distinct
      have stated := replayBranch_document stages head first
      have others := replayBranches_documents rest tail later
      simp [stated, others]

theorem replayBranch_document (stages : Json) {pipeline branch : Pipeline} {name : String}
    (distinct : stages.KeysDistinct) (replayed : pipeline.replayBranch name stages = .ok branch) :
    branch.toJson = stages := by
  cases stages with
  | array documents =>
      simp only [replayBranch, bind_eq_ok] at replayed
      obtain ⟨result, accepted, kept⟩ := replayed
      have restated := replay_documents documents (Json.keysDistinct_array_iff.mp distinct) accepted
      rw [withoutTerminal_eq_ok kept] at restated
      simpa [toJson, Replay.stages, seed] using restated
  | _ => contradiction

end

end Pipeline

end DocTyping
