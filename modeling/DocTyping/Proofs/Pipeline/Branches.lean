import DocTyping.Proofs.Pipeline.Placement
import DocTyping.Proofs.Schema.Describing

namespace DocTyping

/-!
# Branches of facets

A facet replays each of its branches alone, on a pipeline without stages over the current schema.
So whether a branch is accepted, and the schema that it leads to, depends neither on the other
branches nor on the stages before the facet.
-/

theorem forall₂_and_right {α β : Type} {related : α → β → Prop} {fits : β → Prop} {items : List α}
    {results : List β} :
    List.Forall₂ (fun item result => related item result ∧ fits result) items results ↔
      List.Forall₂ related items results ∧ ∀ result ∈ results, fits result := by
  have turned := @List.forall₂_and_left β α (flip related) fits results items
  constructor
  · intro paired
    obtain ⟨each, others⟩ := turned.mp (paired.imp fun _ _ => And.symm).flip
    exact ⟨others.flip, each⟩
  · intro both
    obtain ⟨others, each⟩ := both
    exact (turned.mpr ⟨each, others.flip⟩).flip.imp fun _ _ => And.symm

namespace Schema

theorem record_of_nodup {fields : List (String × Schema)} (distinct : (Keyed.names fields).Nodup) :
    record fields = .object ⟨fields.map fun field => ⟨field.1, field.2, false, false⟩, none⟩ := by
  have written : fields.foldl (fun shape field => shape.insert field.1 field.2 false) .empty =
      (fields.map fun field => ⟨field.1, field.2, false, false⟩).foldl Shape.write .empty := by
    simp only [List.foldl_map, Shape.write_eq_put]
    rfl
  rw [record, written, Shape.foldl_write]
  · rfl
  · simpa [Shape.names, Shape.empty, Keyed.names, Function.comp_def] using distinct

end Schema

namespace Pipeline

variable {pipeline next reached : Pipeline} {branch : String × Json}
  {branches : List (String × Json)} {built : List (String × Pipeline)}

def restarted (pipeline : Pipeline) : Pipeline where
  schema := pipeline.schema
  config := pipeline.config
  catalog := pipeline.catalog
  bindings := pipeline.bindings

structure RunsAlone (pipeline : Pipeline) (branch : String × Json) (reached : Pipeline) : Prop where
  named : IsFieldName branch.1
  accepted : ∃ documents, branch.2 = .array documents ∧ Excludes branchExclusions documents ∧
    pipeline.restarted.replay documents = .ok { pipeline := reached }

theorem runsAlone_iff :
    pipeline.RunsAlone branch reached ↔
      pipeline.replayBranch branch.1 branch.2 = .ok reached ∧
        NameFlaw.of? branch.1 = none ∧ ∀ stage ∈ reached.stages, stage.name ∉ branchExclusions := by
  rw [replayBranch_eq_ok]
  constructor
  · intro alone
    obtain ⟨named, documents, stated, excludes, replays⟩ := alone
    exact ⟨⟨documents, stated, replays⟩, isFieldName_iff.mp named,
      (excludes_iff rfl (extendAll_of_replay replays)).mp excludes⟩
  · intro run
    obtain ⟨⟨documents, stated, replays⟩, named, allowed⟩ := run
    exact ⟨isFieldName_iff.mpr named, documents, stated,
      (excludes_iff rfl (extendAll_of_replay replays)).mpr allowed, replays⟩

theorem replayBranches_eq_ok :
    pipeline.replayBranches branches = .ok built ↔
      List.Forall₂ (fun branch result => result.1 = branch.1 ∧
        pipeline.replayBranch branch.1 branch.2 = .ok result.2) branches built := by
  induction branches generalizing built with
  | nil => simp [replayBranches, eq_comm]
  | cons branch rest ih =>
      obtain ⟨name, stages⟩ := branch
      simp only [replayBranches, bind_eq_ok, pure_eq_ok, ih, List.forall₂_cons_left_iff]
      constructor
      · intro replayed
        obtain ⟨reached, head, others, later, rfl⟩ := replayed
        exact ⟨(name, reached), others, ⟨rfl, head⟩, later, rfl⟩
      · intro paired
        obtain ⟨⟨_, reached⟩, others, ⟨rfl, head⟩, later, rfl⟩ := paired
        exact ⟨reached, head, others, later, rfl⟩

/-- The branches of a facet run alone and lead to pipelines under their names. -/
def AllRunAlone (pipeline : Pipeline) (branches : List (String × Json))
    (built : List (String × Pipeline)) : Prop :=
  List.Forall₂ (fun branch result => result.1 = branch.1 ∧ pipeline.RunsAlone branch result.2)
    branches built

theorem AllRunAlone.names (runs : pipeline.AllRunAlone branches built) :
    Keyed.names built = Keyed.names branches := by
  induction runs with
  | nil => rfl
  | cons head _ ih => rw [Keyed.names_cons, Keyed.names_cons, head.1, ih]

theorem AllRunAlone.ne_nil_iff (runs : pipeline.AllRunAlone branches built) :
    built ≠ [] ↔ branches ≠ [] := by
  cases runs with
  | nil => simp
  | cons => simp

theorem allRunAlone_iff :
    pipeline.AllRunAlone branches built ↔ pipeline.replayBranches branches = .ok built ∧
      ∀ result ∈ built, NameFlaw.of? result.1 = none ∧
        ∀ stage ∈ result.2.stages, stage.name ∉ branchExclusions := by
  rw [replayBranches_eq_ok, ← forall₂_and_right]
  constructor
  · refine List.Forall₂.imp fun branch result runs => ?_
    obtain ⟨named, alone⟩ := runs
    obtain ⟨replays, allowed⟩ := runsAlone_iff.mp alone
    rw [named]
    exact ⟨⟨rfl, replays⟩, allowed⟩
  · refine List.Forall₂.imp fun branch result runs => ?_
    obtain ⟨⟨named, replays⟩, allowed⟩ := runs
    rw [named] at allowed
    exact ⟨named, runsAlone_iff.mpr ⟨replays, allowed⟩⟩

/-- The pipeline after a facet, given what its branches lead to. -/
def withArrays (pipeline : Pipeline) (built : List (String × Pipeline)) : Pipeline :=
  pipeline.append "$facet" (.object (built.map fun result => (result.1, result.2.toJson)))
    (.object ⟨built.map fun result => ⟨result.1, .array result.2.schema, false, false⟩, none⟩)

theorem append_record (distinct : (Keyed.names built).Nodup) :
    pipeline.append "$facet" (.object (built.map fun result => (result.1, result.2.toJson)))
      (.record (built.map fun result => (result.1, .array result.2.schema))) =
      pipeline.withArrays built := by
  rw [Schema.record_of_nodup, List.map_map]
  · rfl
  · simpa [Keyed.names, Function.comp_def] using distinct

/-- A facet is accepted exactly if it has branches, their names are distinct and each of them runs
alone; it leaves an array for each branch. -/
theorem facetOf_eq_ok :
    pipeline.facetOf (.object branches) = .ok next ↔
      branches ≠ [] ∧ (Keyed.names branches).Nodup ∧
        ∃ built, pipeline.AllRunAlone branches built ∧ pipeline.withArrays built = next := by
  simp only [facetOf, bind_eq_ok, facet_eq_ok]
  constructor
  · intro accepted
    obtain ⟨built, replayed, filled, each, distinct, rfl⟩ := accepted
    have runs := allRunAlone_iff.mpr ⟨replayed, each⟩
    exact ⟨runs.ne_nil_iff.mp filled, runs.names ▸ distinct, built, runs,
      (append_record distinct).symm⟩
  · intro run
    obtain ⟨filled, distinct, built, runs, rfl⟩ := run
    obtain ⟨replayed, each⟩ := allRunAlone_iff.mp runs
    rw [← runs.names] at distinct
    exact ⟨built, replayed, runs.ne_nil_iff.mpr filled, each, distinct, append_record distinct⟩

theorem extend_facet (arguments : Json) :
    pipeline.extend (.object [("$facet", arguments)]) = pipeline.facetOf arguments := rfl

theorem exists_allRunAlone_iff :
    (∃ built, pipeline.AllRunAlone branches built) ↔
      ∀ branch ∈ branches, ∃ reached, pipeline.RunsAlone branch reached := by
  simp [AllRunAlone, exists_forall₂_iff]

/-- A facet is accepted exactly if it has branches and each of them runs alone; it leaves a closed
object with one required field for each branch, in order: the array of what the branch leads to. -/
theorem facet_independent (pipeline : Pipeline) (distinct : (Keyed.names branches).Nodup) :
    ((∃ next, pipeline.extend (.object [("$facet", .object branches)]) = .ok next) ↔
      branches ≠ [] ∧ ∀ branch ∈ branches, ∃ reached, pipeline.RunsAlone branch reached) ∧
    ∀ next, pipeline.extend (.object [("$facet", .object branches)]) = .ok next →
      ∃ fields, next.schema = .object ⟨fields, none⟩ ∧
        List.Forall₂ (fun branch field => ∃ reached, pipeline.RunsAlone branch reached ∧
          field = ⟨branch.1, .array reached.schema, false, false⟩) branches fields := by
  simp only [extend_facet, facetOf_eq_ok, ← exists_allRunAlone_iff]
  constructor
  · constructor
    · intro accepted
      obtain ⟨_, filled, _, built, runs, _⟩ := accepted
      exact ⟨filled, built, runs⟩
    · intro run
      obtain ⟨filled, built, runs⟩ := run
      exact ⟨_, filled, distinct, built, runs, rfl⟩
  · intro next accepted
    obtain ⟨_, _, built, runs, rfl⟩ := accepted
    refine ⟨_, rfl, List.forall₂_map_right_iff.mpr (runs.imp fun branch result alone => ?_)⟩
    obtain ⟨named, alone⟩ := alone
    exact ⟨result.2, alone, by rw [named]⟩

def loanViews : List (String × Json) :=
  [("total", .array [.object [("$count", .string "loans")]]),
    ("books", .array [.object [("$group", .object [("_id", .string "$book")])]])]

theorem facet_independent_loans :
    (∃ next fields, loans.extend (.object [("$facet", .object loanViews)]) = .ok next ∧
      next.schema = .object ⟨fields, none⟩ ∧ fields.map Field.name = ["total", "books"]) ∧
    ∀ branch ∈ loanViews, ∃ reached, loans.RunsAlone branch reached := by
  have distinct : (Keyed.names loanViews).Nodup := by decide
  obtain ⟨accepts, leaves⟩ := loans.facet_independent distinct
  have accepted : ∃ next, loans.extend (.object [("$facet", .object loanViews)]) = .ok next :=
    isOk_iff_exists.mp (by decide +kernel)
  obtain ⟨next, accepted⟩ := accepted
  obtain ⟨fields, shaped, paired⟩ := leaves next accepted
  refine ⟨⟨next, fields, accepted, shaped, ?_⟩, (accepts.mp ⟨next, accepted⟩).2⟩
  simp only [loanViews, List.forall₂_cons_left_iff, List.forall₂_nil_left_iff] at paired
  obtain ⟨_, _, ⟨_, _, rfl⟩, ⟨_, _, ⟨_, _, rfl⟩, rfl, rfl⟩, rfl⟩ := paired
  rfl

end Pipeline

end DocTyping
