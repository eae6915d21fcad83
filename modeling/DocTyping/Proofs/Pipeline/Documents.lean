import DocTyping.Pipeline.Stages
import DocTyping.Proofs.Expression.DistinctNames
import DocTyping.Proofs.Literal.Semilattice
import DocTyping.Proofs.Pipeline.Stages

namespace DocTyping

/-!
# The order of elements and documents

What several schemas have in common does not depend on their order.  So neither
does the type of a literal array on the order of its elements, nor the schema of
literal documents on the order of the documents.
-/

namespace Schema

variable {types permuted : List Schema} {first other : Schema}

theorem foldl_unify_same (same : first.Same other)
    (each : ∀ type ∈ types, type.NamesDistinct) :
    (types.foldl unify first).Same (types.foldl unify other) := by
  induction types generalizing first other with
  | nil => exact same
  | cons type rest ih =>
      obtain ⟨head, tail⟩ := List.forall_mem_cons.mp each
      exact ih (same.unify (.refl head)) tail

theorem unify_right_comm {second third : Schema} (distinct : first.NamesDistinct)
    (secondDistinct : second.NamesDistinct) (thirdDistinct : third.NamesDistinct) :
    ((first.unify second).unify third).Same ((first.unify third).unify second) := by
  calc
    Same _ (first.unify (second.unify third)) := unify_assoc distinct secondDistinct thirdDistinct
    Same _ (first.unify (third.unify second)) :=
      (Same.refl distinct).unify (unify_comm secondDistinct thirdDistinct)
    Same _ _ := (unify_assoc distinct thirdDistinct secondDistinct).symm

theorem foldl_unify_perm (perm : types.Perm permuted) (distinct : first.NamesDistinct)
    (each : ∀ type ∈ types, type.NamesDistinct) :
    (types.foldl unify first).Same (permuted.foldl unify first) := by
  induction perm generalizing first with
  | nil => exact .refl distinct
  | cons type _ ih =>
      obtain ⟨head, tail⟩ := List.forall_mem_cons.mp each
      exact ih (unify_namesDistinct distinct head) tail
  | swap second third rest =>
      obtain ⟨thirdDistinct, secondDistinct, others⟩ := by
        simpa only [List.forall_mem_cons] using each
      exact foldl_unify_same (unify_right_comm distinct thirdDistinct secondDistinct) others
  | trans before _ ih ihAfter =>
      refine (ih distinct each).trans (ihAfter distinct fun type member => ?_)
      exact each type (before.mem_iff.mpr member)

theorem unifyAll_perm (perm : types.Perm permuted) (each : ∀ type ∈ types, type.NamesDistinct) :
    (unifyAll types).Same (unifyAll permuted) := by
  induction perm with
  | nil => exact .refl (.scalar _)
  | cons type inner _ =>
      obtain ⟨head, tail⟩ := List.forall_mem_cons.mp each
      exact foldl_unify_perm inner head tail
  | swap second third rest =>
      obtain ⟨thirdDistinct, secondDistinct, others⟩ := by
        simpa only [List.forall_mem_cons] using each
      exact foldl_unify_same (unify_comm thirdDistinct secondDistinct) others
  | trans before _ ih ihAfter =>
      refine (ih each).trans (ihAfter fun type member => ?_)
      exact each type (before.mem_iff.mpr member)

theorem unifyDocuments_perm (perm : types.Perm permuted)
    (each : ∀ type ∈ types, type.NamesDistinct) :
    (unifyDocuments types).Same (unifyDocuments permuted) := by
  have filled : ∀ first rest, unifyDocuments (first :: rest) = unifyAll (first :: rest) :=
    fun _ _ => rfl
  cases types with
  | nil =>
      rw [List.nil_perm.mp perm]
      exact .refl (.object (by decide) (by simp [Shape.empty]) (by simp [Shape.empty]))
  | cons first rest =>
      cases permuted with
      | nil => simp at perm
      | cons other later =>
          rw [filled, filled]
          exact unifyAll_perm perm each

end Schema

theorem Json.type_array_perm {items permuted : List Json} (perm : items.Perm permuted)
    (keys : (array items).KeysDistinct) : (array items).type.Same (array permuted).type := by
  rw [type_array, type_array]
  have inside := keysDistinct_array_iff.mp keys
  refine (Schema.unifyAll_perm (perm.map _) (List.forall_mem_map.mpr fun item member => ?_)).array
  exact type_namesDistinct (inside item member)

def literalScope (config : Configuration) : Scope := .ofRoot (.object .empty) config []

def IsLiteralDocument (config : Configuration) (document : Json) : Prop :=
  document.object?.isSome = true ∧
    document.infer (literalScope config) = .ok (document.typeIn (literalScope config)) ∧
      (document.typeIn (literalScope config)).isObject = true

section Literal

variable {config : Configuration} {document : Json} {documents permuted : List Json}

theorem literalScope_namesDistinct : (literalScope config).NamesDistinct := by
  refine ⟨?_, by simp [literalScope, Scope.ofRoot]⟩
  exact .object (by decide) (by simp [Shape.empty]) (by simp [Shape.empty])

theorem literalDocument_eq_ok {type : Schema} :
    literalDocument config document = .ok type ↔
      IsLiteralDocument config document ∧ type = document.typeIn (literalScope config) := by
  unfold literalDocument IsLiteralDocument
  split
  · rename_i object
    simp only [bind_eq_ok, demand_eq_ok, pure_eq_ok]
    constructor
    · rintro ⟨found, typed, _, isObject, rfl⟩
      obtain ⟨typed, rfl⟩ := Json.infer_eq_ok_typeIn.mp typed
      exact ⟨⟨object, typed, isObject⟩, rfl⟩
    · rintro ⟨⟨_, typed, isObject⟩, rfl⟩
      exact ⟨_, typed, (), isObject, rfl⟩
  · rename_i refused
    simp [refused]

theorem literalDocuments_eq_ok {types : List Schema} :
    literalDocuments config documents = .ok types ↔
      (∀ document ∈ documents, IsLiteralDocument config document) ∧
        types = documents.map (Json.typeIn (literalScope config)) :=
  traversal_eq_ok (literalDocument config) rfl (fun _ _ => rfl) fun _ _ => literalDocument_eq_ok

theorem IsLiteralDocument.namesDistinct (accepted : IsLiteralDocument config document)
    (keys : document.KeysDistinct) : (document.typeIn (literalScope config)).NamesDistinct := by
  have typed := Json.hasType_of_infer accepted.2.1
  exact typed.namesDistinct literalScope_namesDistinct keys

namespace Pipeline

variable {pipeline next : Pipeline}

theorem documents_eq_ok :
    pipeline.documents (.array documents) = .ok next ↔
      (pipeline.requireFirst "$documents" = .ok () ∧
        ∀ document ∈ documents, IsLiteralDocument pipeline.config document) ∧
      next = pipeline.append "$documents" (.array documents)
        (.unifyDocuments (documents.map (Json.typeIn (literalScope pipeline.config)))) := by
  rw [Pipeline.documents, reshape_eq_ok]
  simp only [stated, bind_eq_ok, literalDocuments_eq_ok, pure_eq_ok]
  constructor
  · rintro ⟨_, ⟨_, first, _, ⟨each, rfl⟩, rfl⟩, rfl⟩
    exact ⟨⟨first, each⟩, rfl⟩
  · rintro ⟨⟨first, each⟩, rfl⟩
    exact ⟨_, ⟨(), first, _, ⟨each, rfl⟩, rfl⟩, rfl⟩

theorem documents_perm (perm : documents.Perm permuted) (keys : (Json.array documents).KeysDistinct)
    (accepted : pipeline.documents (.array documents) = .ok next) :
    ∃ other, pipeline.documents (.array permuted) = .ok other ∧ next.schema.Same other.schema := by
  obtain ⟨⟨first, each⟩, rfl⟩ := documents_eq_ok.mp accepted
  have others := fun document member => each document (perm.mem_iff.mpr member)
  refine ⟨_, documents_eq_ok.mpr ⟨⟨first, others⟩, rfl⟩, ?_⟩
  refine Schema.unifyDocuments_perm (perm.map _) (List.forall_mem_map.mpr fun document member => ?_)
  exact (each document member).namesDistinct (Json.keysDistinct_array_iff.mp keys document member)

end Pipeline

end Literal

/-- Schemas form a semilattice under `Schema.unify`, up to equality; and so the order of elements
and of documents makes no difference to a literal array and to `$documents`. -/
theorem unify_semilattice :
    (∀ {first second third : Schema},
      first.NamesDistinct → second.NamesDistinct → third.NamesDistinct →
        first.unify first = first ∧
        (first.unify second).equivalent (second.unify first) = true ∧
        ((first.unify second).unify third).equivalent (first.unify (second.unify third)) = true) ∧
    (∀ {items permuted : List Json}, (Json.array items).KeysDistinct → items.Perm permuted →
      (Json.array items).type.equivalent (Json.array permuted).type = true) ∧
    (∀ {pipeline next : Pipeline} {documents permuted : List Json},
      (Json.array documents).KeysDistinct → documents.Perm permuted →
        pipeline.documents (.array documents) = .ok next →
          ∃ other, pipeline.documents (.array permuted) = .ok other ∧
            next.schema.equivalent other.schema = true) := by
  refine ⟨fun first second third => ⟨?_, ?_, ?_⟩, fun keys perm => ?_,
    fun keys perm accepted => ?_⟩
  · exact Schema.unify_self first
  · exact (Schema.unify_comm first second).equal
  · exact (Schema.unify_assoc first second third).equal
  · exact (Json.type_array_perm perm keys).equal
  · obtain ⟨other, reached, same⟩ := Pipeline.documents_perm perm keys accepted
    exact ⟨other, reached, same.equal⟩

def noted : Schema := .object ⟨[⟨"note", .string, false, true⟩], none⟩

def plainlyNoted : Schema := closedObject [("note", .string)]

def openTallies : Schema := .object (.openTo .number)

def entryDocument : Json := .object [("note", .string "paid"), ("sum", .ofInt 7)]

def remarkDocument : Json := .object [("note", .string "open")]

theorem unify_semilattice_notes :
    noted.unify noted = noted ∧
      (noted.unify plainlyNoted).equivalent (plainlyNoted.unify noted) = true ∧
      ((noted.unify plainlyNoted).unify openTallies).equivalent
        (noted.unify (plainlyNoted.unify openTallies)) = true ∧
      (Json.array [entryDocument, remarkDocument]).type.equivalent
        (Json.array [remarkDocument, entryDocument]).type = true ∧
      ∃ next other : Pipeline,
        Pipeline.documents { schema := noted } (.array [entryDocument, remarkDocument]) = .ok next ∧
        Pipeline.documents { schema := noted } (.array [remarkDocument, entryDocument]) =
          .ok other ∧
        next.schema.equivalent other.schema = true := by
  have notedDistinct : noted.NamesDistinct :=
    .object (by decide) (by simp [Schema.string]) (by simp)
  have plainDistinct : plainlyNoted.NamesDistinct :=
    closedObject_namesDistinct (by decide) (by simp [Schema.string])
  have openDistinct : openTallies.NamesDistinct :=
    .object (by decide) (by simp [Shape.openTo]) (by simp [Shape.openTo, Schema.number])
  have keys : (Json.array [entryDocument, remarkDocument]).KeysDistinct := by
    simp [entryDocument, remarkDocument, Json.keysDistinct_array_iff, Json.keysDistinct_object_iff,
      Json.ofInt, Json.KeysDistinct.string, Json.KeysDistinct.number]
  have perm : [entryDocument, remarkDocument].Perm [remarkDocument, entryDocument] :=
    .swap remarkDocument entryDocument []
  have passes : (Pipeline.documents { schema := noted }
      (.array [entryDocument, remarkDocument])).isOk = true := by
    decide +kernel
  obtain ⟨next, accepted⟩ := isOk_iff_exists.mp passes
  obtain ⟨laws, arrays, stages⟩ := unify_semilattice
  obtain ⟨other, reached, same⟩ := stages keys perm accepted
  obtain ⟨idempotent, commutative, associative⟩ :=
    laws notedDistinct plainDistinct openDistinct
  exact ⟨idempotent, commutative, associative, arrays keys perm, next, other, accepted, reached,
    same⟩

end DocTyping
