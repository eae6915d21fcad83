import DocTyping.Proofs.Pipeline.Names
import DocTyping.Proofs.Pipeline.Objects
import DocTyping.Proofs.Schema.Reloading

namespace DocTyping

/-!
# Schemas of pipelines load again

What a pipeline leads to can be described, and the description loads, unless a
literal declares a name that no description may state.  A literal is taken as it
stands; stages check the other names that they write, though an empty key of a
computed document escapes them.
-/

/-- A part of what a list of stages evaluates for its documents. -/
def IsEvaluated (documents : List Json) (part : Json) : Prop :=
  ∃ expression, StagesEvaluate documents expression ∧ part.EvaluatedIn expression

/-- The type of a literal in an expression of a list declares a name. -/
def LiteralDeclares (documents : List Json) (name : String) : Prop :=
  ∃ argument : Json,
    IsEvaluated documents (.object [("$literal", argument)]) ∧ argument.type.Declares name

/-- A document that a list of stages computes has an empty key. -/
def HasEmptyKey (documents : List Json) : Prop :=
  ∃ entries : List (String × Json), IsEvaluated documents (.object entries) ∧
    hasOperatorKey entries = false ∧ "" ∈ Keyed.names entries

def MayLeadTo (documents : List Json) (name : String) : Prop :=
  NameFlaw.of? name = none ∨ LiteralDeclares documents name ∨ name = "" ∧ HasEmptyKey documents

/-- What a list of stages evaluates, or the null of an argument that is left out. -/
def MayEvaluate (documents : List Json) (value : Json) : Prop :=
  value = .null ∨ IsEvaluated documents value

variable {documents : List Json} {entries : List (String × Json)} {name : String}

theorem IsEvaluated.part {part value : Json} (evaluated : IsEvaluated documents value)
    (inside : part.EvaluatedIn value) : IsEvaluated documents part := by
  obtain ⟨expression, stated, within⟩ := evaluated
  exact ⟨expression, stated, inside.trans within⟩

theorem MayEvaluate.object (given : MayEvaluate documents (.object entries)) :
    IsEvaluated documents (.object entries) := by
  rcases given with absent | evaluated
  · contradiction
  · exact evaluated

/-- The key of a computed document is sound, unless it is empty. -/
theorem flawless_of_key (plain : hasOperatorKey entries = false)
    (undotted : ∀ entry ∈ entries, '.' ∉ entry.1.toList) (member : name ∈ Keyed.names entries) :
    NameFlaw.of? name = none ∨ name = "" := by
  obtain ⟨entry, listed, rfl⟩ := List.mem_map.mp member
  by_cases empty : entry.1 = ""
  · exact .inr empty
  · refine .inl (NameFlaw.of?_eq_none_iff.mpr ⟨?_, ?_, undotted entry listed⟩)
    · simpa using empty
    · have unmarked := List.any_eq_false.mp plain entry listed
      simpa [Text.startsWithDollar] using unmarked

theorem mayEvaluate_nameSource (documents : List Json) :
    NameSource (fun names => ∀ name ∈ names, MayLeadTo documents name)
      (MayEvaluate documents) where
  null := .inl rfl
  item given item member := by
    rcases given with absent | evaluated
    · contradiction
    · exact .inr (evaluated.part (.item member .here))
  entry given entry member passed := .inr (given.object.part (.entry member passed .here))
  keys given plain undotted name member := by
    rcases flawless_of_key plain undotted member with sound | rfl
    · exact .inl sound
    · exact .inr (.inr ⟨rfl, _, given.object, plain, member⟩)
  literal given := Schema.namesFit_forall_iff.mpr fun name declared =>
    .inr (.inl ⟨_, given.object, declared⟩)

theorem Schema.IsLoaded.namesFit {schema : Schema} (loaded : schema.IsLoaded) :
    schema.NamesFit fun names => ∀ name ∈ names, MayLeadTo documents name :=
  Schema.namesFit_forall_iff.mpr fun name declared =>
    .inl (Schema.namesFit_flawless_iff.mp loaded.flawless name declared)

namespace Pipeline

/-- An accepted list leads from loaded schemas to one whose names may be declared, except for those
that its literals declare and for empty keys of documents that it computes.  Its description loads
exactly if all its names may be declared, and it then loads to the same schema. -/
theorem replay_reloads {root : Schema} {config : Configuration} {catalog : Option Catalog}
    {documents : List Json} {replayed : Replay} (loaded : root.IsLoaded)
    (beside : ∀ held ∈ catalog, ∀ entry ∈ held.collections, entry.2.IsLoaded)
    (accepted : Pipeline.replay { schema := root, config, catalog } documents = .ok replayed) :
    (∀ name, replayed.schema.Declares name → NameFlaw.of? name = none ∨
      LiteralDeclares documents name ∨ name = "" ∧ HasEmptyKey documents) ∧
    (∀ source reloaded, Schema.ofDescription source replayed.schema.describe = .ok reloaded ↔
      (∀ name, replayed.schema.Declares name → NameFlaw.of? name = none) ∧
        reloaded = replayed.schema) ∧
    ((∀ name, LiteralDeclares documents name → NameFlaw.of? name = none) →
      ¬ HasEmptyKey documents → ∀ source,
        Schema.ofDescription source replayed.schema.describe = .ok replayed.schema) := by
  have rule : NameRule fun names => ∀ name ∈ names, MayLeadTo documents name :=
    forall_nameRule fun sound => .inl sound
  have fit : NamesFit (fun names => ∀ name ∈ names, MayLeadTo documents name)
      { schema := root, config, catalog } :=
    ⟨loaded.namesFit, fun held member entry listed => (beside held member entry listed).namesFit,
      by simp⟩
  have only : EvaluateOnly (MayEvaluate documents) documents :=
    fun expression evaluated => .inr ⟨expression, evaluated, .here⟩
  have reached :=
    replay_namesFit rule (mayEvaluate_nameSource documents) documents fit only accepted
  have names : ∀ name, replayed.schema.Declares name → MayLeadTo documents name :=
    Schema.namesFit_forall_iff.mp reached.schema
  have reloads : ∀ source reloaded, _ := fun source reloaded =>
    @Schema.ofDescription_describe replayed.schema source reloaded
      (result_isObject loaded.isObject accepted)
  refine ⟨names, reloads, fun literals filled source => (reloads source _).mpr ⟨?_, rfl⟩⟩
  intro name declared
  rcases names name declared with sound | inLiteral | ⟨_, empty⟩
  · exact sound
  · exact literals name inLiteral
  · exact absurd empty filled

def titles : Schema := closedObject [("title", .string)]

theorem titles_isLoaded : titles.IsLoaded := ⟨"titles", titles.describe, rfl⟩

/-- A condition that compares books with a document that has an empty key. -/
def namelessCondition : Json :=
  .object [("$expr", .object [("$ne", .array [.object [("", .bool true)], .string "$title"])])]

def statedMark : Json := .object [("$literal", .object [("read", .bool true)])]

/-- Books of a condition with a mark, of which a part is kept. -/
def markedDocuments : List Json :=
  [.object [("$match", namelessCondition)],
    .object [("$addFields", .object [("mark", statedMark)])],
    .object [("$project", .object [("mark.read", .bool true)])]]

theorem stagesEvaluate_marked {expression : Json}
    (evaluated : StagesEvaluate markedDocuments expression) :
    expression = statedMark ∨ expression = .bool true := by
  cases evaluated with
  | stage listed stated =>
      simp only [markedDocuments, List.mem_cons, Json.object.injEq, List.cons.injEq,
        Prod.mk.injEq, List.not_mem_nil, and_true, or_false] at listed
      rcases listed with ⟨rfl, rfl⟩ | ⟨rfl, rfl⟩ | ⟨rfl, rfl⟩
      · exact absurd stated.stating (by decide)
      · obtain ⟨leaf, member, rfl⟩ := stated.exists_leaf (by decide) rfl
        rw [List.mem_singleton.mp member]
        exact .inl rfl
      · obtain ⟨leaf, member, rfl⟩ := stated.exists_leaf (by decide) rfl
        rw [List.mem_singleton.mp member]
        exact .inr rfl
  | nested feeds =>
      cases feeds with
      | joined listed => simp [markedDocuments] at listed
      | branch listed => simp [markedDocuments] at listed

theorem isEvaluated_marked {entries : List (String × Json)}
    (evaluated : IsEvaluated markedDocuments (.object entries)) :
    Json.object entries = statedMark := by
  obtain ⟨expression, stated, inside⟩ := evaluated
  rcases stagesEvaluate_marked stated with rfl | rfl
  · rcases Json.evaluatedIn_object_iff.mp inside with whole | ⟨entry, member, passed, _⟩
    · exact whole
    · rw [List.mem_singleton.mp member] at passed
      exact absurd passed (by decide)
  · cases Json.evaluatedIn_bool_iff.mp inside

theorem replay_reloads_marked :
    titles.IsLoaded ∧ ∃ replayed,
      Pipeline.replay { schema := titles, catalog := some ⟨[("books", titles)]⟩ } markedDocuments =
          .ok replayed ∧
        Schema.ofDescription "marked" replayed.schema.describe = .ok replayed.schema := by
  have accepted : ∃ replayed, Pipeline.replay
      { schema := titles, catalog := some ⟨[("books", titles)]⟩ } markedDocuments = .ok replayed :=
    isOk_iff_exists.mp (by decide +kernel)
  obtain ⟨replayed, accepted⟩ := accepted
  have beside : ∀ held ∈ some (⟨[("books", titles)]⟩ : Catalog), ∀ entry ∈ held.collections,
      entry.2.IsLoaded := by
    simp [titles_isLoaded]
  obtain ⟨_, _, reloads⟩ := replay_reloads titles_isLoaded beside accepted
  refine ⟨titles_isLoaded, replayed, accepted, reloads ?_ ?_ "marked"⟩
  · intro name declares
    obtain ⟨argument, evaluated, declared⟩ := declares
    cases isEvaluated_marked evaluated
    change Schema.Declares name (closedObject [("read", .bool)]) at declared
    refine Schema.namesFit_flawless_iff.mp ?_ name declared
    exact closedObject_namesFit (flawless_nameRule.known (by decide) (by decide))
      (List.forall_mem_singleton.mpr (.scalar _))
  · intro nameless
    obtain ⟨entries, evaluated, plain, _⟩ := nameless
    cases isEvaluated_marked evaluated
    contradiction

/-- Books with a rule that is quoted. -/
def quotedDocuments : List Json :=
  [.object [("$project", .object
    [("rule", .object [("$literal", .object [("$add", .ofInt 1)])])])]]

/-- A literal may declare a name that no description may state. -/
theorem replay_reloads_not_quoted :
    titles.IsLoaded ∧ ∃ replayed,
      Pipeline.replay { schema := titles } quotedDocuments = .ok replayed ∧
        replayed.schema.Declares "$add" ∧
          ∀ source reloaded,
            Schema.ofDescription source replayed.schema.describe ≠ .ok reloaded := by
  refine ⟨titles_isLoaded, _, rfl, ?_⟩
  have declared : Schema.Declares "$add"
      (closedObject [("title", .string), ("rule", closedObject [("$add", .number)])]) :=
    .field (List.mem_cons_of_mem _ List.mem_cons_self) (.here rfl)
  refine ⟨declared, fun source reloaded accepted => ?_⟩
  have flawless := ((Schema.ofDescription_describe rfl).mp accepted).1 "$add" declared
  exact absurd flawless (by decide)

/-- Books that are replaced by a document with an empty key. -/
def namelessDocuments : List Json :=
  [.object [("$replaceWith", .object [("", .string "$title")])]]

/-- A computed document may declare the empty name, too. -/
theorem replay_reloads_not_nameless :
    titles.IsLoaded ∧ HasEmptyKey namelessDocuments ∧ ∃ replayed,
      Pipeline.replay { schema := titles } namelessDocuments = .ok replayed ∧
        replayed.schema.Declares "" ∧
          ∀ source reloaded,
            Schema.ofDescription source replayed.schema.describe ≠ .ok reloaded := by
  have evaluated : StagesEvaluate namelessDocuments (.object [("", .string "$title")]) :=
    .stage List.mem_cons_self .replacement
  have nameless : HasEmptyKey namelessDocuments :=
    ⟨_, ⟨_, evaluated, .here⟩, rfl, List.mem_cons_self⟩
  refine ⟨titles_isLoaded, nameless, _, rfl, ?_⟩
  have declared : Schema.Declares "" (closedObject [("", .string)]) := .here rfl
  refine ⟨declared, fun source reloaded accepted => ?_⟩
  have flawless := ((Schema.ofDescription_describe rfl).mp accepted).1 "" declared
  exact absurd flawless (by decide)

end Pipeline

end DocTyping
