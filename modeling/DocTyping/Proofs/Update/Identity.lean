import DocTyping.Proofs.Path.Walk
import DocTyping.Proofs.Update.Targets

namespace DocTyping

/-!
# The identity of documents

An accepted update changes nothing in `_id`, except on insertion and by renames:
the path of an entry may not start with `_id`, but a rename may move a field onto a
place in `_id` of the same type.
-/

/-- A field that may be missing, or any field where this is allowed, can be moved onto a place of
the same type in `_id`. -/
structure MovesOntoIdentity (config : Configuration) (root : Schema)
    (source destination : FieldPath) : Prop where
  outside : source.head? ≠ some "_id"
  onto : destination.head? = some "_id"
  places : ∃ here there, source.resolve root config.resolveOptions = .ok here ∧
    destination.resolve root config.resolveOptions = .ok there ∧
    here.arrival.traversedArray = false ∧ there.arrival.traversedArray = false ∧
    (here.arrival.optional = true ∨ config.allowUnsetRequired = true) ∧
    there.node.equivalent here.node = true

def RenamesOntoIdentity (config : Configuration) (root : Schema) (name : String)
    (entry : String × Json) : Prop :=
  name = "$rename" ∧ ∃ source text destination, FieldPath.parse entry.1 = .ok source ∧
    entry.2 = .string text ∧ FieldPath.parse text = .ok destination ∧
      MovesOntoIdentity config root source destination

variable {config : Configuration} {root : Schema} {operator : UpdateOperator} {name : String}
  {entry : String × Json} {path source destination : FieldPath} {target : UpdateTarget}
  {payload update : Json}

theorem resolveTarget_eq_ok {options : ResolveOptions} :
    resolveTarget root path options = .ok target ↔
      ∃ resolved, path.resolve root options = .ok resolved ∧ target = ⟨path, resolved.arrival⟩ := by
  simp only [resolveTarget, bind_eq_ok, mapError_eq_ok, pure_eq_ok, @eq_comm _ _ target]

theorem FieldPath.head?_of_prefix {first second : FieldPath}
    (leads : first.segments <+: second.segments) (filled : first.segments ≠ []) :
    first.head? = second.head? := by
  obtain ⟨rest, same⟩ := leads
  obtain ⟨step, later, stated⟩ := List.exists_cons_of_ne_nil filled
  rw [stated] at same
  rw [head?, head?, stated, ← same, List.cons_append]
  cases step <;> rfl

theorem FieldPath.segments_ne_nil {options : ResolveOptions} {resolved : Resolved}
    (resolves : path.resolve root options = .ok resolved) : path.segments ≠ [] := by
  obtain ⟨filled, _⟩ := FieldPath.resolve_eq_ok_iff.mp resolves
  exact filled

theorem overlaps_of_heads_ne {first second : FieldPath} (filled : first.segments ≠ [])
    (secondFilled : second.segments ≠ []) (different : first.head? ≠ second.head?) :
    first.overlaps second = false := by
  refine overlaps_eq_false_iff.mpr ⟨fun leads => ?_, fun leads => ?_⟩
  · exact different (FieldPath.head?_of_prefix leads filled)
  · exact different (FieldPath.head?_of_prefix leads secondFilled).symm

/-- The path of an accepted entry lies outside `_id`, except on insertion. -/
theorem head?_of_entryTargets {targets : List FieldPath}
    (known : UpdateOperator.named? name = some operator) (changes : name ≠ "$setOnInsert")
    (accepted : entryTargets config root operator entry = .ok targets)
    (read : FieldPath.parse entry.1 = .ok path) : path.head? ≠ some "_id" := by
  obtain ⟨_, target, parsed, addressed, _⟩ := entryTargets_eq_ok.mp accepted
  cases read.symm.trans parsed
  obtain ⟨writable, _⟩ := checkTarget_eq_ok.mp addressed
  intro identity
  exact writable ⟨identity, fun inserts => changes ((UpdateOperator.inserts_iff known).mp inserts)⟩

/-- An accepted entry changes nothing in `_id` but by a rename onto it. -/
theorem renamesOntoIdentity_of_accepted (changes : name ≠ "$setOnInsert")
    (accepted : (Json.singleUpdate name entry).checkUpdate config root = .ok ())
    (stated : path ∈ statedTargets name entry) (identity : path.head? = some "_id") :
    RenamesOntoIdentity config root name entry := by
  obtain ⟨operator, known, targets, accepted⟩ := single_eq_ok.mp accepted
  obtain ⟨source, target, read, addressed, checked⟩ := entryTargets_eq_ok.mp accepted
  have outside := head?_of_entryTargets known changes accepted read
  obtain ⟨_, resolves, _, removable⟩ := checkTarget_eq_ok.mp addressed
  obtain ⟨here, found, rfl⟩ := resolveTarget_eq_ok.mp resolves
  rw [← (entryTargets_stated known accepted).1] at stated
  split at checked
  · rename_i renames
    obtain ⟨destination, renamed, rfl⟩ := checked
    obtain ⟨text, given, unnested, spelled, _, _, reached, same, level⟩ :=
      checkRename_eq_ok.mp renamed
    obtain ⟨there, arrived, rfl⟩ := resolveTarget_eq_ok.mp reached
    have moved : path = destination := by
      rcases List.mem_cons.mp stated with rfl | last
      · exact absurd identity outside
      · exact List.mem_singleton.mp last
    subst moved
    obtain ⟨removes, bare⟩ := UpdateOperator.rename_form known renames
    refine ⟨(UpdateOperator.renames_iff known).mp renames, source, text, path, read, given, spelled,
      outside, identity, here, there, ?_, arrived, unnested, level, removable removes, ?_⟩
    · rw [bare] at found
      exact found
    · have same : (!there.node.equivalent here.node) = false := same
      simpa using same
  · obtain ⟨_, rfl⟩ := checked
    obtain rfl := List.mem_singleton.mp stated
    exact absurd identity outside

theorem accepted_of_renamesOntoIdentity (renames : RenamesOntoIdentity config root name entry) :
    (Json.singleUpdate name entry).checkUpdate config root = .ok () := by
  obtain ⟨rfl, source, text, destination, read, given, spelled, outside, onto, here, there, found,
    arrived, unnested, level, removable, same⟩ := renames
  have apart : destination.overlaps source = false := by
    refine overlaps_of_heads_ne (FieldPath.segments_ne_nil arrived)
      (FieldPath.segments_ne_nil found) ?_
    rw [onto]
    exact Ne.symm outside
  refine single_eq_ok.mpr
    ⟨⟨"$rename", .any, false, true, .renameTarget⟩, rfl, [source, destination], ?_⟩
  refine entryTargets_eq_ok.mpr ⟨source, ⟨source, here.arrival⟩, read, ?_, ?_⟩
  · refine checkTarget_eq_ok.mpr ⟨fun identity => outside identity.1, ?_, rfl, fun _ => removable⟩
    exact resolveTarget_eq_ok.mpr ⟨here, found, rfl⟩
  · refine ⟨destination, checkRename_eq_ok.mpr ?_, rfl⟩
    refine ⟨text, given, unnested, spelled, apart, ⟨destination, there.arrival⟩, ?_, ?_, level⟩
    · exact resolveTarget_eq_ok.mpr ⟨there, arrived, rfl⟩
    · change (!there.node.equivalent here.node) = false
      rw [same]
      rfl

/-- An accepted update changes `_id` on insertion and by renames onto it, and by nothing else; and
every rename of a field outside `_id` onto a place in `_id` is accepted as soon as the types agree
and the field may be missing. -/
theorem checkUpdate_identity (accepted : update.checkUpdate config root = .ok ()) :
    ((∀ target ∈ update.updateTargets, target.1 ≠ "$setOnInsert" → target.2.head? ≠ some "_id") ↔
      ∀ stated ∈ update.updateEntries, ¬ RenamesOntoIdentity config root stated.1 stated.2) ∧
    ∀ name entry, RenamesOntoIdentity config root name entry →
      (Json.singleUpdate name entry).checkUpdate config root = .ok () := by
  refine ⟨⟨?_, ?_⟩, fun name entry => accepted_of_renamesOntoIdentity⟩
  · intro kept stated listed renames
    obtain ⟨rename, source, text, destination, _, given, spelled, moves⟩ := renames
    have moved : destination? stated.1 stated.2.2 = some destination := by
      rw [destination?, if_pos rename, given]
      exact FieldPath.ofText?_eq_some.mpr spelled
    have target : (stated.1, destination) ∈ update.updateTargets := by
      refine List.mem_flatMap.mpr ⟨stated, listed, List.mem_map_of_mem ?_⟩
      rw [statedTargets, moved]
      exact List.mem_append_right _ (List.mem_singleton_self _)
    exact kept _ target (by simp [rename]) moves.onto
  · intro none target listed changes identity
    obtain ⟨stated, entry, inside⟩ := List.mem_flatMap.mp listed
    obtain ⟨path, changed, rfl⟩ := List.mem_map.mp inside
    exact none stated entry (renamesOntoIdentity_of_accepted changes
      (single_of_accepted accepted entry) changed identity)

/-- People with a name and perhaps an alias, identified by a text. -/
def aliased : Schema :=
  .object ⟨[⟨"_id", .string, false, false⟩, ⟨"alias", .string, true, false⟩], none⟩

def aliasEntry : String × Json := ("alias", .string "_id")

theorem checkUpdate_identity_alias :
    (Json.singleUpdate "$rename" aliasEntry).checkUpdate {} aliased = .ok () ∧
      ("$rename", ⟨[.name "_id"]⟩) ∈ (Json.singleUpdate "$rename" aliasEntry).updateTargets ∧
      ¬ ∀ target ∈ (Json.singleUpdate "$rename" aliasEntry).updateTargets,
        target.1 ≠ "$setOnInsert" → target.2.head? ≠ some "_id" := by
  have read : FieldPath.parse "alias" = .ok ⟨[.name "alias"]⟩ := by decide +kernel
  have spelled : FieldPath.parse "_id" = .ok ⟨[.name "_id"]⟩ := by decide +kernel
  have renames : RenamesOntoIdentity {} aliased "$rename" aliasEntry :=
    ⟨rfl, _, _, _, read, rfl, spelled, by decide, by decide, _, _, rfl, rfl, rfl, rfl, .inl rfl,
      rfl⟩
  have accepted := accepted_of_renamesOntoIdentity renames
  obtain ⟨kept, _⟩ := checkUpdate_identity accepted
  refine ⟨accepted, by decide +kernel, fun immutable => ?_⟩
  exact kept.mp immutable ("$rename", aliasEntry) List.mem_cons_self renames

end DocTyping
