import DocTyping.Proofs.Pipeline.Restriction
import Mathlib.Logic.Relation

namespace DocTyping

/-!
# Places of stages

Some stages have to be the first of their list, some the last of the whole
pipeline, and some may not stand in a branch of a facet.  Lists nest in joins and
facets.  Acceptance passes from a list to those right below it, which are replayed
on a pipeline without stages; so it is enough to look at one list.
-/

/-- The stages that come first or not at all. -/
def openingStages : List String := ["$documents", "$geoNear"]

/-- A list states a stage of a name at an index. -/
def StatesAt (documents : List Json) (index : Nat) (name : String) : Prop :=
  ∃ arguments, documents[index]? = some (.object [(name, arguments)])

/-- The opening stages of a list come first. -/
def OpensFirst (documents : List Json) : Prop :=
  ∀ index name, StatesAt documents index name → name ∈ openingStages → index = 0

/-- The destinations of a list come last. -/
def EndsLast (documents : List Json) : Prop :=
  ∀ index name, StatesAt documents index name → name ∈ terminalStages →
    index + 1 = documents.length

def Excludes (names : List String) (documents : List Json) : Prop :=
  ∀ index name, StatesAt documents index name → name ∉ names

inductive HasBranch (documents : List Json) : List Json → Prop
  | branch {branches : List (String × Json)} {name : String} {inner : List Json}
      (stated : .object [("$facet", .object branches)] ∈ documents)
      (member : (name, .array inner) ∈ branches) : HasBranch documents inner

/-- One list right below another: the pipeline of a join, or a branch of a facet. -/
inductive Nests (documents : List Json) : List Json → Prop
  | joined {entries : List (String × Json)} {name : String} {inner : List Json}
      (joins : name ∈ ["$lookup", "$unionWith"])
      (stated : .object [(name, .object entries)] ∈ documents)
      (given : entries.lookup "pipeline" = some (.array inner)) : Nests documents inner
  | branch {inner : List Json} (holds : HasBranch documents inner) : Nests documents inner

/-- The stages with which a merge in a list updates documents that are already there. -/
inductive MergesWith (documents : List Json) : List Json → Prop
  | matched {entries : List (String × Json)} {stages : List Json}
      (stated : .object [("$merge", .object entries)] ∈ documents)
      (given : entries.lookup "whenMatched" = some (.array stages)) : MergesWith documents stages

namespace Pipeline

variable {pipeline next reached : Pipeline} {document : Json} {documents inner : List Json}
  {replayed : Replay} {name : String} {entries : List (String × Json)}

/-- Every document of an accepted list adds its stage, or is a destination in the last place. -/
theorem reaches_of_replay {index : Nat} (accepted : pipeline.replay documents = .ok replayed)
    (stated : documents[index]? = some document) :
    ∃ reached, pipeline.extendAll (documents.take index) = .ok reached ∧
      ((∃ next, reached.extend document = .ok next) ∨
        index + 1 = documents.length ∧ ∃ stage, Stage.terminal? document = some stage ∧
          replayed.terminal = some stage ∧ reached.checkDestination stage = .ok ()) := by
  induction documents generalizing pipeline index with
  | nil => simp at stated
  | cons first rest ih =>
      rcases replay_cons_eq_ok.mp accepted with
        ⟨next, extended, continued⟩ | ⟨rfl, stage, terminal, checked, rfl⟩
      · cases index with
        | zero =>
            cases stated
            exact ⟨pipeline, rfl, .inl ⟨next, extended⟩⟩
        | succ index =>
            obtain ⟨reached, before, outcome⟩ := ih continued stated
            refine ⟨reached, ?_, ?_⟩
            · rw [List.take_succ_cons, extendAll_cons, extended]
              exact before
            · simpa using outcome
      · cases index with
        | zero =>
            cases stated
            exact ⟨pipeline, rfl, .inr ⟨rfl, stage, terminal, rfl, checked⟩⟩
        | succ index => simp at stated

theorem extendAll_of_replay
    (accepted : pipeline.replay documents = .ok { pipeline := reached }) :
    pipeline.extendAll documents = .ok reached := by
  induction documents generalizing pipeline with
  | nil =>
      cases accepted
      rfl
  | cons first rest ih =>
      rcases replay_cons_eq_ok.mp accepted with
        ⟨next, extended, continued⟩ | ⟨_, stage, _, _, made⟩
      · rw [extendAll_cons, extended]
        exact ih continued
      · cases made

theorem statesAt_cons_iff :
    (∃ index, StatesAt (document :: documents) index name) ↔
      (∃ arguments, document = .object [(name, arguments)]) ∨
        ∃ index, StatesAt documents index name := by
  constructor
  · intro stated
    obtain ⟨index, arguments, stated⟩ := stated
    cases index with
    | zero => exact .inl ⟨arguments, by simpa using stated⟩
    | succ index => exact .inr ⟨index, arguments, stated⟩
  · intro stated
    rcases stated with ⟨arguments, rfl⟩ | ⟨index, stated⟩
    · exact ⟨0, arguments, rfl⟩
    · exact ⟨index + 1, stated⟩

/-- Every document adds a stage of the name that it states, and no stage is lost. -/
theorem mem_names_of_extendAll (extended : pipeline.extendAll documents = .ok reached) :
    name ∈ reached.stages.map Stage.name ↔
      name ∈ pipeline.stages.map Stage.name ∨ ∃ index, StatesAt documents index name := by
  induction documents generalizing pipeline with
  | nil =>
      cases extended
      simp [StatesAt]
  | cons first rest ih =>
      rw [extendAll_cons] at extended
      obtain ⟨next, head, later⟩ := bind_eq_ok.mp extended
      obtain ⟨held, arguments, rfl, _, added⟩ := extend_grows head
      rw [ih later, statesAt_cons_iff, added.stages, List.map_append, List.mem_append, or_assoc]
      simp [eq_comm]

theorem excludes_iff {names : List String} (empty : pipeline.stages = [])
    (extended : pipeline.extendAll documents = .ok reached) :
    Excludes names documents ↔ ∀ stage ∈ reached.stages, stage.name ∉ names := by
  have added : ∀ name, name ∈ reached.stages.map Stage.name ↔
      ∃ index, StatesAt documents index name := by
    intro name
    rw [mem_names_of_extendAll extended, empty]
    simp
  constructor
  · intro excludes stage member
    obtain ⟨index, stated⟩ := (added stage.name).mp (List.mem_map_of_mem member)
    exact excludes index stage.name stated
  · intro allowed index name stated
    obtain ⟨stage, member, rfl⟩ := List.mem_map.mp ((added name).mpr ⟨index, stated⟩)
    exact allowed stage member

theorem joinSeed_stages {join : Join} {seed : Pipeline} (own : Keyed.has entries "pipeline" = true)
    (read : pipeline.joinSeed join entries = .ok seed) : seed.stages = [] := by
  unfold joinSeed at read
  rw [if_pos own] at read
  obtain ⟨bindings, _, made⟩ := bind_eq_ok.mp read
  cases made
  rfl

theorem unionSeed_stages {seed : Pipeline} (own : Keyed.has entries "pipeline" = true)
    (read : pipeline.unionSeed entries = .ok seed) : seed.stages = [] := by
  simp only [unionSeed, own, ↓reduceIte, bind_eq_ok, pure_eq_ok] at read
  obtain ⟨_, _, _, _, foreign, _, rfl⟩ := read
  rfl

theorem replayUnder_of_given {seed : Pipeline} {value : Json}
    (given : entries.lookup "pipeline" = some value) :
    pipeline.replayUnder name seed entries = pipeline.replayNested name seed value := by
  induction entries with
  | nil => simp at given
  | cons entry rest ih =>
      obtain ⟨key, held⟩ := entry
      by_cases same : key = "pipeline"
      · subst same
        simp only [List.lookup_cons_self, Option.some.injEq] at given
        rw [replayUnder, if_pos rfl, given]
      · rw [Keyed.lookup_cons_of_ne same] at given
        rw [replayUnder, if_neg same]
        exact ih given

/-- A list that is accepted on some pipeline without stages. -/
def Accepts (documents : List Json) : Prop :=
  ∃ pipeline replayed, stages pipeline = [] ∧ pipeline.replay documents = .ok replayed

/-- A list that is accepted on some pipeline without stages, and ends with no destination. -/
def AcceptsWithin (documents : List Json) : Prop :=
  ∃ pipeline reached, stages pipeline = [] ∧
    pipeline.replay documents = .ok { pipeline := reached }

theorem accepts_of_nested {seed : Pipeline} {stages : List Json} (empty : seed.stages = [])
    (accepted : pipeline.replayNested name seed (.array stages) = .ok reached) :
    AcceptsWithin stages := by
  rw [replayNested] at accepted
  obtain ⟨replayed, replays, kept⟩ := bind_eq_ok.mp accepted
  rw [withoutTerminal_eq_ok kept] at replays
  exact ⟨seed, reached, empty, replays⟩

theorem accepts_of_lookup (given : entries.lookup "pipeline" = some (.array inner))
    (accepted : pipeline.lookup (.object entries) = .ok next) : AcceptsWithin inner := by
  have own : Keyed.has entries "pipeline" = true := by simp [Keyed.has_eq_isSome_lookup, given]
  simp only [lookup, bind_eq_ok, lift_eq_ok] at accepted
  obtain ⟨join, _, seed, read, joined, replays, _⟩ := accepted
  rw [replayUnder_of_given given] at replays
  exact accepts_of_nested (joinSeed_stages own read) replays

theorem accepts_of_unionWith (given : entries.lookup "pipeline" = some (.array inner))
    (accepted : pipeline.unionWith (.object entries) = .ok next) : AcceptsWithin inner := by
  have own : Keyed.has entries "pipeline" = true := by simp [Keyed.has_eq_isSome_lookup, given]
  simp only [unionWith, bind_eq_ok, lift_eq_ok] at accepted
  obtain ⟨seed, read, joined, replays, _⟩ := accepted
  rw [replayUnder_of_given given] at replays
  exact accepts_of_nested (unionSeed_stages own read) replays

theorem replayBranches_of_mem {branches : List (String × Pipeline)} {stages : Json}
    (replayed : pipeline.replayBranches entries = .ok branches)
    (member : (name, stages) ∈ entries) :
    ∃ branch, (name, branch) ∈ branches ∧ pipeline.replayBranch name stages = .ok branch := by
  induction entries generalizing branches with
  | nil => simp at member
  | cons entry rest ih =>
      obtain ⟨first, held⟩ := entry
      simp only [replayBranches, bind_eq_ok, pure_eq_ok] at replayed
      obtain ⟨branch, head, others, later, rfl⟩ := replayed
      rcases List.mem_cons.mp member with here | onward
      · cases here
        exact ⟨branch, List.mem_cons_self, head⟩
      · obtain ⟨found, listed, replays⟩ := ih later onward
        exact ⟨found, List.mem_cons_of_mem _ listed, replays⟩

/-- A branch of an accepted facet is accepted, and free of the stages that no branch may have. -/
theorem branch_of_facetOf {branches : List (String × Json)} {stages : List Json}
    (accepted : pipeline.facetOf (.object branches) = .ok next)
    (member : (name, .array stages) ∈ branches) :
    AcceptsWithin stages ∧ Excludes branchExclusions stages := by
  rw [facetOf] at accepted
  obtain ⟨built, replayed, faceted⟩ := bind_eq_ok.mp accepted
  obtain ⟨branch, listed, replays⟩ := replayBranches_of_mem replayed member
  obtain ⟨_, each, _⟩ := facet_eq_ok.mp faceted
  obtain ⟨_, ⟨⟩, replays⟩ := replayBranch_eq_ok.mp replays
  exact ⟨⟨_, branch, rfl, replays⟩,
    (excludes_iff rfl (extendAll_of_replay replays)).mpr (each _ listed).2⟩

/-- The stage of a document that is no destination is added when its list is accepted. -/
theorem extends_of_mem {arguments : Json} (accepted : Accepts documents)
    (member : .object [(name, arguments)] ∈ documents) (ordinary : name ∉ terminalStages) :
    ∃ reached next : Pipeline, reached.add ⟨name, arguments⟩ = .ok next := by
  obtain ⟨pipeline, replayed, _, replays⟩ := accepted
  obtain ⟨index, stated⟩ := List.mem_iff_getElem?.mp member
  obtain ⟨reached, _, ⟨next, extended⟩ | ⟨_, stage, terminal, _⟩⟩ := reaches_of_replay replays stated
  · rw [extend_eq_parse] at extended
    obtain ⟨stage, read, added⟩ := bind_eq_ok.mp extended
    obtain ⟨same, _⟩ := Stage.parse_eq_ok.mp (lift_eq_ok.mp read)
    cases same
    exact ⟨reached, next, added⟩
  · obtain ⟨same, isTerminal⟩ := Stage.terminal?_eq_some terminal
    cases same
    exact absurd (by simpa using isTerminal) ordinary

theorem Accepts.below (accepted : Accepts documents) (nests : Nests documents inner) :
    AcceptsWithin inner := by
  cases nests with
  | joined joins stated given =>
      simp only [List.mem_cons, List.not_mem_nil, or_false] at joins
      rcases joins with rfl | rfl
      · obtain ⟨reached, next, added⟩ := extends_of_mem accepted stated (by decide)
        exact accepts_of_lookup given added
      · obtain ⟨reached, next, added⟩ := extends_of_mem accepted stated (by decide)
        exact accepts_of_unionWith given added
  | branch holds =>
      obtain ⟨stated, member⟩ := holds
      obtain ⟨reached, next, added⟩ := extends_of_mem accepted stated (by decide)
      exact (branch_of_facetOf added member).1

theorem AcceptsWithin.accepts (accepted : AcceptsWithin documents) : Accepts documents := by
  obtain ⟨pipeline, reached, empty, replays⟩ := accepted
  exact ⟨pipeline, _, empty, replays⟩

theorem Accepts.excluded (accepted : Accepts documents) (holds : HasBranch documents inner) :
    Excludes branchExclusions inner := by
  obtain ⟨stated, member⟩ := holds
  obtain ⟨reached, next, added⟩ := extends_of_mem accepted stated (by decide)
  exact (branch_of_facetOf added member).2

theorem first_of_opening {arguments : Json} (opening : name ∈ openingStages)
    (extended : pipeline.extend (.object [(name, arguments)]) = .ok next) :
    pipeline.stages = [] := by
  simp only [openingStages, List.mem_cons, List.not_mem_nil, or_false] at opening
  rcases opening with rfl | rfl
  · rw [extend_flat rfl (by decide)] at extended
    obtain ⟨schema, derived, _⟩ := reshape_eq_ok.mp extended
    obtain ⟨_, first, _⟩ := bind_eq_ok.mp derived
    simpa using demand_eq_ok.mp first
  · rw [extend_flat rfl (by decide)] at extended
    obtain ⟨checked, _⟩ := pass_eq_ok.mp extended
    obtain ⟨_, first, _⟩ := bind_eq_ok.mp checked
    simpa using demand_eq_ok.mp first

theorem Accepts.opensFirst (accepted : Accepts documents) : OpensFirst documents := by
  obtain ⟨pipeline, replayed, empty, replays⟩ := accepted
  intro index name states opening
  obtain ⟨arguments, stated⟩ := states
  have inside : index < documents.length := (List.getElem?_eq_some_iff.mp stated).1
  obtain ⟨reached, before, ⟨next, extended⟩ | ⟨_, stage, terminal, _⟩⟩ :=
    reaches_of_replay replays stated
  · have length := extendAll_length before
    rw [first_of_opening opening extended, empty, List.length_take,
      Nat.min_eq_left (Nat.le_of_lt inside)] at length
    simpa using length.symm
  · obtain ⟨same, isTerminal⟩ := Stage.terminal?_eq_some terminal
    cases same
    simp only [openingStages, List.mem_cons, List.not_mem_nil, or_false] at opening
    rcases opening with named | named
    all_goals
      rw [named] at isTerminal
      contradiction

theorem terminal?_of_name {arguments : Json} (terminal : name ∈ terminalStages) :
    Stage.terminal? (.object [(name, arguments)]) = some ⟨name, arguments⟩ := by
  simp [Stage.terminal?, terminal]

theorem Accepts.endsLast (accepted : Accepts documents) : EndsLast documents := by
  obtain ⟨pipeline, replayed, _, replays⟩ := accepted
  intro index name states terminal
  obtain ⟨arguments, stated⟩ := states
  obtain ⟨reached, _, ⟨next, extended⟩ | ⟨last, _⟩⟩ := reaches_of_replay replays stated
  · rw [extend_terminal (terminal?_of_name terminal)] at extended
    contradiction
  · exact last

theorem AcceptsWithin.excludesTerminals (accepted : AcceptsWithin documents) :
    Excludes terminalStages documents := by
  obtain ⟨pipeline, reached, _, replays⟩ := accepted
  intro index name states terminal
  obtain ⟨arguments, stated⟩ := states
  obtain ⟨_, _, ⟨next, extended⟩ | ⟨_, stage, _, kept, _⟩⟩ := reaches_of_replay replays stated
  · rw [extend_terminal (terminal?_of_name terminal)] at extended
    contradiction
  · contradiction

theorem replayUpdate_of_mem (accepted : pipeline.replayUpdate documents = .ok reached)
    (member : document ∈ documents) :
    ∃ name arguments, document = .object [(name, arguments)] ∧ name ∈ updateStages := by
  obtain ⟨stage, read, update⟩ := updates_of_replayUpdate accepted document member
  obtain ⟨same, _⟩ := Stage.parse_eq_ok.mp read
  exact ⟨stage.name, stage.arguments, same.symm, update⟩

theorem updates_of_checkMerge {stages : List Json}
    (given : entries.lookup "whenMatched" = some (.array stages))
    (accepted : pipeline.checkMerge entries = .ok ()) :
    ∃ seed reached : Pipeline, seed.replayUpdate stages = .ok reached := by
  have found : Keyed.get? entries "whenMatched" = some (.array stages) := given
  simp only [checkMerge, found, checkMatched, bind_eq_ok] at accepted
  obtain ⟨seed, _, _, ⟨reached, updates, _⟩, _⟩ := accepted
  exact ⟨seed, reached, updates⟩

theorem Accepts.mergesWith {stages : List Json} (accepted : Accepts documents)
    (merges : MergesWith documents stages) :
    ∀ document ∈ stages, ∃ name arguments, document = .object [(name, arguments)] ∧
      name ∈ updateStages := by
  obtain ⟨member, given⟩ := merges
  obtain ⟨pipeline, replayed, _, replays⟩ := accepted
  obtain ⟨index, stated⟩ := List.mem_iff_getElem?.mp member
  obtain ⟨reached, _, ⟨next, extended⟩ | ⟨_, stage, terminal, _, checked⟩⟩ :=
    reaches_of_replay replays stated
  · rw [extend_terminal (terminal?_of_name (by decide))] at extended
    contradiction
  · cases (terminal?_of_name (by decide)).symm.trans terminal
    obtain ⟨seed, last, updates⟩ := updates_of_checkMerge given checked
    intro document listed
    exact replayUpdate_of_mem updates listed

open Relation

theorem Accepts.within (accepted : Accepts documents) (nested : TransGen Nests documents inner) :
    AcceptsWithin inner := by
  induction nested with
  | single nests => exact accepted.below nests
  | tail _ nests ih => exact ih.accepts.below nests

/-- In an accepted list, destinations come last and opening stages first.  In the lists nested in
it at any depth there are no destinations, and opening stages come first; branches of facets have
none of the stages that are excluded from them, and merges update by update stages only. -/
theorem replay_placement (empty : pipeline.stages = [])
    (accepted : pipeline.replay documents = .ok replayed) :
    (EndsLast documents ∧ OpensFirst documents) ∧
    (∀ inner, TransGen Nests documents inner → Excludes terminalStages inner ∧ OpensFirst inner) ∧
    ∀ outer, ReflTransGen Nests documents outer →
      (∀ branch, HasBranch outer branch → Excludes branchExclusions branch) ∧
      ∀ stages, MergesWith outer stages → ∀ document ∈ stages, ∃ name arguments,
        document = .object [(name, arguments)] ∧ name ∈ updateStages := by
  have accepts : Accepts documents := ⟨pipeline, replayed, empty, accepted⟩
  refine ⟨⟨accepts.endsLast, accepts.opensFirst⟩, ?_, ?_⟩
  · intro inner nested
    have within := accepts.within nested
    exact ⟨within.excludesTerminals, within.accepts.opensFirst⟩
  · intro outer nested
    have outerAccepts : Accepts outer := by
      rcases reflTransGen_iff_eq_or_transGen.mp nested with rfl | below
      · exact accepts
      · exact (accepts.within below).accepts
    exact ⟨fun _ holds => outerAccepts.excluded holds,
      fun _ merges => outerAccepts.mergesWith merges⟩

def loans : Pipeline :=
  { schema := closedObject [("book", .string)]
    catalog := some ⟨[("books", closedObject [("title", .string)])]⟩ }

def titleFacet : List Json :=
  [.object [("$facet", .object [("first", .array [titleOrder, .object [("$limit", .ofInt 1)]])])]]

/-- Stated loans with the facet joined to them, written back without the name of the book. -/
def loanDocuments : List Json :=
  [.object [("$documents", .array [.object [("book", .string "Emma")]])],
    .object [("$lookup", .object
      [("from", .string "books"), ("as", .string "found"), ("pipeline", .array titleFacet)])],
    .object [("$merge", .object
      [("into", .string "loans"),
        ("whenMatched", .array [.object [("$unset", .string "book")]])])]]

theorem replay_placement_loans :
    (∃ replayed, loans.replay loanDocuments = .ok replayed) ∧
      EndsLast loanDocuments ∧ OpensFirst loanDocuments ∧
      Excludes terminalStages titleFacet ∧
      Excludes branchExclusions [titleOrder, .object [("$limit", .ofInt 1)]] ∧
      "$unset" ∈ updateStages := by
  have accepted : ∃ replayed, loans.replay loanDocuments = .ok replayed :=
    isOk_iff_exists.mp (by decide +kernel)
  obtain ⟨replayed, replays⟩ := accepted
  obtain ⟨⟨ends, opens⟩, inside, each⟩ := replay_placement rfl replays
  have facetBelow : Nests loanDocuments titleFacet :=
    @Nests.joined _ _ "$lookup" _ (by simp) (List.mem_cons_of_mem _ List.mem_cons_self) rfl
  have merges : MergesWith loanDocuments [.object [("$unset", .string "book")]] :=
    .matched (List.mem_cons_of_mem _ (List.mem_cons_of_mem _ List.mem_cons_self)) rfl
  obtain ⟨branchesOf, _⟩ := each titleFacet (.single facetBelow)
  obtain ⟨name, arguments, same, update⟩ := (each loanDocuments .refl).2 _ merges _
    List.mem_cons_self
  cases same
  exact ⟨⟨replayed, replays⟩, ends, opens, (inside titleFacet (.single facetBelow)).1,
    branchesOf _ (.branch List.mem_cons_self List.mem_cons_self), update⟩

end Pipeline

end DocTyping
