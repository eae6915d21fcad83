import DocTyping.Proofs.Pipeline.Derivations
import DocTyping.Proofs.Schema.Reshaping

namespace DocTyping

/-!
# Documents stay documents

Whatever stages make of documents are documents: if the schema that flows into a
list is that of objects, so is the schema after each of its stages.
-/

namespace Schema

variable {first second : Schema} {types : List Schema}

theorem isObject_iff_form : first.isObject = true ↔ first.form = .object := by
  cases first <;> simp [isObject, shape?, form]

theorem unify_isObject (object : first.isObject = true) (other : second.isObject = true) :
    (first.unify second).isObject = true := by
  rw [isObject_iff_form] at object other ⊢
  rw [unify_form (object.trans other.symm), object]

theorem unifyDocuments_isObject (each : ∀ type ∈ types, type.isObject = true) :
    (unifyDocuments types).isObject = true := by
  cases types with
  | nil => rfl
  | cons first rest =>
      obtain ⟨head, tail⟩ := List.forall_mem_cons.mp each
      clear each
      change (rest.foldl unify first).isObject = true
      induction rest generalizing first with
      | nil => exact head
      | cons second later ih =>
          obtain ⟨next, onward⟩ := List.forall_mem_cons.mp tail
          exact ih (first.unify second) (unify_isObject head next) onward

end Schema

theorem Kept.apply_isObject {tree : Keyed Kept} {source : Schema}
    (object : source.isObject = true) : (apply tree source).isObject = true := by
  obtain ⟨shape, rfl⟩ := Schema.isObject_iff.mp object
  rfl

namespace Pipeline

variable {pipeline next : Pipeline} {states : Json → Prop} {document : Json} {before schema : Schema}
  {documents : List Json} {replayed : Replay}

theorem Edits.isObject (edits : pipeline.Edits states before schema)
    (object : before.isObject = true) : schema.isObject = true := by
  cases edits with
  | written _ _ named => exact Schema.setPath_isObject named object
  | removed => exact Schema.removePath_isObject object
  | unwound _ _ named _ => exact Schema.unwindPath_isObject named object

theorem Derives.isObject (derives : pipeline.Derives states schema)
    (object : pipeline.schema.isObject = true) : schema.isObject = true := by
  cases derives with
  | edited edits =>
      induction edits with
      | refl => exact object
      | tail _ edit ih => exact edit.isObject ih
  | selected => exact Kept.apply_isObject object
  | recorded => rfl
  | replaced _ object => exact object
  | unknown => rfl
  | stated _ accepted =>
      exact Schema.unifyDocuments_isObject
        (List.forall_mem_map.mpr fun document member => (accepted document member).2.2)

theorem extend_isObject (extended : pipeline.extend document = .ok next)
    (object : pipeline.schema.isObject = true) : next.schema.isObject = true := by
  unfold extend at extended
  split at extended
  · obtain ⟨_, _, stated⟩ := bind_eq_ok.mp extended
    split at stated
    · obtain ⟨_, branches, _, _, _, derived⟩ := record_of_facetOf stated
      rw [derived]
      rfl
    · obtain ⟨_, join, _, joined, _, read, _, _, derived⟩ := attach_of_lookup stated
      rw [derived]
      exact Schema.setPath_isObject (readJoin_eq_ok read).1 object
    · rwa [schema_of_unionWith stated]
    · exact (derives_of_extendFlat stated).isObject object
  · contradiction

/-- Each prefix of an accepted list is accepted, and leads from objects to objects. -/
theorem front_isObject {front : List Json} (begins : front <+: documents)
    (accepted : pipeline.replay documents = .ok replayed)
    (object : pipeline.schema.isObject = true) :
    ∃ reached, pipeline.replay front = .ok reached ∧ reached.schema.isObject = true := by
  induction front generalizing pipeline documents with
  | nil => exact ⟨_, rfl, object⟩
  | cons document later ih =>
      obtain ⟨rest, rfl⟩ := begins
      rcases replay_cons_eq_ok.mp accepted with
        ⟨next, extended, continued⟩ | ⟨empty, stage, terminal, checked, rfl⟩
      · obtain ⟨reached, replays, isObject⟩ :=
          ih ⟨rest, rfl⟩ continued (extend_isObject extended object)
        exact ⟨reached, replay_cons_eq_ok.mpr (.inl ⟨next, extended, replays⟩), isObject⟩
      · have last : later = [] := (List.append_eq_nil_iff.mp empty).1
        exact ⟨_, replay_cons_eq_ok.mpr (.inr ⟨last, stage, terminal, checked, rfl⟩), object⟩

theorem result_isObject (object : pipeline.schema.isObject = true)
    (accepted : pipeline.replay documents = .ok replayed) : replayed.schema.isObject = true := by
  obtain ⟨reached, replays, isObject⟩ := front_isObject (List.prefix_refl _) accepted object
  cases accepted.symm.trans replays
  exact isObject

/-- An accepted list leads from objects to objects, and so does each of its prefixes. -/
theorem replay_isObject (object : pipeline.schema.isObject = true)
    (accepted : pipeline.replay documents = .ok replayed) :
    replayed.schema.isObject = true ∧
      ∀ front, front <+: documents →
        ∃ reached, pipeline.replay front = .ok reached ∧ reached.schema.isObject = true := by
  refine ⟨result_isObject object accepted, fun front begins => ?_⟩
  exact front_isObject begins accepted object

def parcels : Pipeline :=
  { schema := closedObject [("items", .array (closedObject [("weight", .scalar .int)]))]
    catalog := some ⟨[("depots", closedObject [("limit", .scalar .int)])]⟩ }

/-- The items in place of their parcels, with the depots of the same limit, and their weights side
by side with their number. -/
def parcelDocuments : List Json :=
  [.object [("$unwind", .string "$items")],
    .object [("$replaceWith", .string "$items")],
    .object [("$lookup", .object
      [("from", .string "depots"), ("localField", .string "weight"),
        ("foreignField", .string "limit"), ("as", .string "depots")])],
    .object [("$facet", .object
      [("weights", .array [.object [("$project", .object [("weight", .ofInt 1)])]]),
        ("all", .array [.object [("$count", .string "n")]])])],
    .object [("$out", .string "report")]]

theorem replay_isObject_parcels :
    parcels.schema.isObject = true ∧
      (∃ replayed, parcels.replay parcelDocuments = .ok replayed ∧
        replayed.schema.isObject = true) ∧
      ∃ reached, parcels.replay (parcelDocuments.take 3) = .ok reached ∧
        reached.schema.isObject = true := by
  have accepted : ∃ replayed, parcels.replay parcelDocuments = .ok replayed :=
    isOk_iff_exists.mp (by decide +kernel)
  obtain ⟨replayed, accepted⟩ := accepted
  obtain ⟨whole, fronts⟩ := replay_isObject rfl accepted
  exact ⟨rfl, ⟨replayed, accepted, whole⟩, fronts _ ⟨_, List.take_append_drop 3 parcelDocuments⟩⟩

end Pipeline

end DocTyping
