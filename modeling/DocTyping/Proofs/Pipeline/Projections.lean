import DocTyping.Proofs.Expression.Typing
import DocTyping.Proofs.Pipeline.Inclusion
import DocTyping.Proofs.Pipeline.Leaves
import DocTyping.Proofs.Pipeline.Stages

namespace DocTyping

/-!
# Projections that include

An accepted projection that includes anything leaves exactly what its leaves keep: the
fields that are included, with their types, and the fields that are computed.
-/

/-- The paths of the leaves that keep something. -/
def keptPaths (leaves : List (String × Json)) : List (List String) :=
  (leaves.filter fun leaf => ProjectionLeaf.of leaf.2 ≠ .drop).map fun leaf => Text.splitDots leaf.1

/-- A text resolves to a node under these flags, if the depth suffices. -/
def Schema.Offers (schema : Schema) (text : String) (node : Schema) (optional nullable : Bool) :
    Prop :=
  ∃ depth, ∀ options : ResolveOptions, depth ≤ options.maxDepth →
    ∃ resolved, resolveText schema text options = .ok resolved ∧ resolved.node = node ∧
      resolved.arrival.optional = optional ∧ resolved.arrival.nullable = nullable

namespace Pipeline

variable {pipeline next : Pipeline} {specification : Json} {leaves : List (String × Json)}
  {leaf : String × Json} {names : List String} {tree grown : Keyed Kept}

def kept? (pipeline : Pipeline) (leaf : String × Json) : Option (List String × Kept) :=
  match ProjectionLeaf.of leaf.2 with
  | .keep => some (Text.splitDots leaf.1, .field)
  | .drop => none
  | .compute => some (Text.splitDots leaf.1, .computed (leaf.2.typeIn pipeline.scope))

/-- What an inclusion demands of a leaf. -/
structure Includes (pipeline : Pipeline) (leaf : String × Json) : Prop where
  names : fieldNames "$project" leaf.1 = .ok (Text.splitDots leaf.1)
  value :
    match ProjectionLeaf.of leaf.2 with
    | .keep => ∃ resolved, pipeline.resolve leaf.1 = .ok resolved
    | .drop => leaf.1 = "_id"
    | .compute => pipeline.infer leaf.2 = .ok (leaf.2.typeIn pipeline.scope)

theorem includeLeaf_eq_ok (named : fieldNames "$project" leaf.1 = .ok names)
    (accepted : pipeline.includeLeaf leaf.1 leaf.2 names tree = .ok grown) :
    pipeline.Includes leaf ∧ grown = Kept.plantAll tree (pipeline.kept? leaf).toList := by
  obtain rfl := fieldNames_eq_splitDots named
  unfold includeLeaf at accepted
  split at accepted
  · rename_i keeps
    simp only [checkPath, bind_eq_ok, pure_eq_ok] at accepted
    obtain ⟨_, ⟨resolved, resolves, _⟩, rfl⟩ := accepted
    exact ⟨⟨named, by simp [keeps, resolves]⟩, by simp [kept?, keeps, Kept.plantAll]⟩
  · rename_i drops
    split at accepted
    · rename_i id
      cases accepted
      exact ⟨⟨named, by simpa [drops] using id⟩, by simp [kept?, drops, Kept.plantAll]⟩
    · contradiction
  · rename_i computes
    obtain ⟨type, typed, made⟩ := bind_eq_ok.mp accepted
    cases made
    have inferred : pipeline.infer leaf.2 = .ok type := within_eq_ok.mp typed
    have same : leaf.2.typeIn pipeline.scope = type := Json.typeIn_of_infer inferred
    refine ⟨⟨named, by simp [computes, same, inferred]⟩, ?_⟩
    simp [kept?, computes, Kept.plantAll, same]

theorem readLeaves_includeLeaf {read : Projected (Keyed Kept)}
    (accepted : readLeaves pipeline.includeLeaf leaves tree = .ok read) :
    (∀ leaf ∈ leaves, pipeline.Includes leaf) ∧
      read.paths = leaves.map (fun leaf => Text.splitDots leaf.1) ∧
      read.result = Kept.plantAll tree (leaves.filterMap pipeline.kept?) := by
  induction leaves generalizing tree read with
  | nil =>
      cases accepted
      exact ⟨by simp, rfl, rfl⟩
  | cons leaf rest ih =>
      simp only [readLeaves, bind_eq_ok, pure_eq_ok] at accepted
      obtain ⟨names, named, grown, first, rested, later, rfl⟩ := accepted
      obtain ⟨head, made⟩ := includeLeaf_eq_ok named first
      obtain ⟨tail, paths, result⟩ := ih later
      refine ⟨List.forall_mem_cons.mpr ⟨head, tail⟩, ?_, ?_⟩
      · rw [paths, fieldNames_eq_splitDots named, List.map_cons]
      · rw [result, made, List.filterMap_cons]
        cases pipeline.kept? leaf <;> rfl

theorem kept?_eq_some {entry : List String × Kept} (keeps : pipeline.kept? leaf = some entry) :
    entry.1 = Text.splitDots leaf.1 := by
  unfold kept? at keeps
  split at keeps
  · cases keeps
    rfl
  · contradiction
  · cases keeps
    rfl

theorem paths_kept : (leaves.filterMap pipeline.kept?).map Prod.fst = keptPaths leaves := by
  induction leaves with
  | nil => rfl
  | cons leaf rest ih =>
      cases kind : ProjectionLeaf.of leaf.2 with
      | drop => simpa [keptPaths, kept?, kind] using ih
      | _ => simpa [keptPaths, kept?, kind] using ih

theorem project_inclusion_eq_ok (stated : specificationLeaves "$project" specification = .ok leaves)
    (including : ∃ leaf ∈ leaves, ProjectionLeaf.of leaf.2 = .keep)
    (accepted : pipeline.project specification = .ok next) :
    (∀ leaf ∈ leaves, pipeline.Includes leaf) ∧
      Kept.Separate (leaves.filterMap pipeline.kept?) ∧
      next.schema =
        Kept.apply (Kept.planted (leaves.filterMap pipeline.kept?)) pipeline.schema := by
  obtain ⟨schema, derived, rfl⟩ := reshape_eq_ok.mp accepted
  have includes : (leaves.any fun leaf => ProjectionLeaf.of leaf.2 == .keep) = true := by
    simpa using including
  simp only [projected, stated, ok_bind, includes, if_true, bind_eq_ok, pure_eq_ok] at derived
  obtain ⟨read, reads, _, apart, rfl⟩ := derived
  obtain ⟨each, paths, result⟩ := readLeaves_includeLeaf reads
  rw [checkCollisions_eq_ok, paths] at apart
  refine ⟨each, ⟨?_, ?_⟩, by rw [result]; rfl⟩
  · intro entry member
    obtain ⟨leaf, listed, keeps⟩ := List.mem_filterMap.mp member
    rw [kept?_eq_some keeps]
    exact fieldNames_ne_nil (each leaf listed).names
  · refine (List.pairwise_map.mp apart).filterMap _ ?_
    intro former latter apart first keeps second others
    rwa [kept?_eq_some keeps, kept?_eq_some others]

theorem offers_of_locate {schema : Schema} {found : Found}
    (named : fieldNames "$project" leaf.1 = .ok names)
    (located : schema.asField.locate names = some found) :
    schema.Offers leaf.1 found.node found.optional found.nullable := by
  refine ⟨found.moves, fun options within => ?_⟩
  have resolves := (FieldPath.resolve_names_iff (fieldNames_ne_nil named)).mpr
    ⟨found, located, within, rfl⟩
  rw [resolveText, fieldNames_eq_ok.mp named, ok_bind]
  exact ⟨_, resolves, rfl, rfl, rfl⟩

theorem exists_located {resolved : Resolved} (named : fieldNames "$project" leaf.1 = .ok names)
    (resolves : pipeline.resolve leaf.1 = .ok resolved) :
    ∃ found, pipeline.schema.asField.locate names = some found ∧ found.node = resolved.node ∧
      found.optional = resolved.arrival.optional ∧ found.nullable = resolved.arrival.nullable := by
  rw [resolve_of_fieldNames named, mapError_eq_ok,
    FieldPath.resolve_names_iff (fieldNames_ne_nil named)] at resolves
  obtain ⟨found, located, _, rfl⟩ := resolves
  exact ⟨found, located, rfl, rfl, rfl⟩

theorem resolve_unkept {fields : List (Field Schema)} {path : FieldPath} {name : String}
    {rest : List Segment} {options : ResolveOptions} (starts : path.segments = .name name :: rest)
    (unkept : name ∉ fields.map Field.name) (spend : 0 < options.maxDepth) :
    path.resolve (.object ⟨fields, none⟩) options = .error ⟨path.render, .unknownField name⟩ := by
  have absent : (⟨fields, none⟩ : Shape Schema).find? name = none := by
    simpa [Shape.find?] using unkept
  have lacks : (Schema.object ⟨fields, none⟩).Lacks name := by
    simp [Schema.Lacks, Shape.child?, Shape.declared?, absent]
  obtain ⟨budget, covers⟩ := Nat.exists_eq_succ_of_ne_zero (Nat.pos_iff_ne_zero.mp spend)
  rw [FieldPath.resolve_of_ne_nil (by simp [starts]), starts, covers, walk_of_blocks (.field lacks)]
  rfl

section Kept

variable (includes : ∀ leaf ∈ leaves, pipeline.Includes leaf)
  (separate : Kept.Separate (leaves.filterMap pipeline.kept?))
  (made : next.schema =
    Kept.apply (Kept.planted (leaves.filterMap pipeline.kept?)) pipeline.schema)

include includes separate made

theorem offers_placed {kept : Kept} (member : leaf ∈ leaves)
    (keeps : pipeline.kept? leaf = some (Text.splitDots leaf.1, kept)) :
    next.schema.Offers leaf.1 (kept.placed (Text.splitDots leaf.1) pipeline.schema).node
      (kept.placed (Text.splitDots leaf.1) pipeline.schema).optional
      (kept.placed (Text.splitDots leaf.1) pipeline.schema).nullable := by
  have planted : (Text.splitDots leaf.1, kept) ∈ leaves.filterMap pipeline.kept? :=
    List.mem_filterMap.mpr ⟨leaf, member, keeps⟩
  obtain ⟨across, moves, located⟩ := Kept.locate_leaf separate planted
  rw [← made] at located
  exact offers_of_locate (includes leaf member).names located

theorem offers_included (member : leaf ∈ leaves) (keeps : ProjectionLeaf.of leaf.2 = .keep) :
    ∃ resolved optional, pipeline.resolve leaf.1 = .ok resolved ∧
      next.schema.Offers leaf.1 resolved.node optional resolved.arrival.nullable ∧
      if Schema.endsUndeclared (Text.splitDots leaf.1) pipeline.schema
        then resolved.arrival.optional = true ∧ optional = false
        else optional = resolved.arrival.optional := by
  obtain ⟨named, value⟩ := includes leaf member
  simp only [keeps] at value
  obtain ⟨resolved, resolves⟩ := value
  obtain ⟨found, located, node, optional, nullable⟩ := exists_located named resolves
  obtain ⟨sameNode, sameOptional, sameNullable⟩ :=
    Kept.placed_field (fieldNames_ne_nil named) located
  have kept : pipeline.kept? leaf = some (Text.splitDots leaf.1, .field) := by simp [kept?, keeps]
  have offers := offers_placed includes separate made member kept
  rw [sameNode, node, sameNullable, nullable] at offers
  rw [optional] at sameOptional
  exact ⟨resolved, _, resolves, offers, sameOptional⟩

theorem offers_computed (member : leaf ∈ leaves) (computes : ProjectionLeaf.of leaf.2 = .compute) :
    ∃ type optional nullable, pipeline.infer leaf.2 = .ok type ∧
      next.schema.Offers leaf.1 type optional nullable := by
  obtain ⟨named, value⟩ := includes leaf member
  simp only [computes] at value
  have kept : pipeline.kept? leaf =
      some (Text.splitDots leaf.1, .computed (leaf.2.typeIn pipeline.scope)) := by
    simp [kept?, computes]
  have offers := offers_placed includes separate made member kept
  rw [Kept.placed_computed _ (fieldNames_ne_nil named)] at offers
  exact ⟨_, _, _, value, offers⟩

omit includes in
/-- Each level that an inclusion builds is reached, and is closed. -/
theorem reaches_level {front : List String} (filled : front ≠ [])
    (follow : followers front (keptPaths leaves) ≠ []) :
    ∃ node fields, (∃ depth, ∀ options : ResolveOptions, depth ≤ options.maxDepth →
        ∃ optional nullable, next.schema.Reaches options front node optional nullable) ∧
      node.core = .object ⟨fields, none⟩ ∧
      fields.map Field.name = followers front (keptPaths leaves) := by
  have kept : keptPaths leaves = (leaves.filterMap pipeline.kept?).map Prod.fst := paths_kept.symm
  rw [kept] at follow ⊢
  obtain ⟨node, fields, located, core, named⟩ := Kept.locate_level separate follow
  rw [← made] at located
  obtain ⟨found, reached, rfl⟩ := Option.map_eq_some_iff.mp located
  refine ⟨found.node, fields, ⟨found.moves, fun options within => ?_⟩, core, named⟩
  refine ⟨found.optional, found.nullable, (Schema.reaches_iff filled).mpr ?_⟩
  exact ⟨found.across, found.moves, reached, within⟩

end Kept

/-- A projection that includes anything leaves a closed object of the first names that it keeps, in
the order in which they are first met, and so at each level that it builds.  What is included
resolves to the type that it has before, what is computed to the type of its expression, and no path
resolves that starts with another name. -/
theorem project_keeps_exactly (object : pipeline.schema.isObject = true)
    (stated : specificationLeaves "$project" specification = .ok leaves)
    (including : ∃ leaf ∈ leaves, ProjectionLeaf.of leaf.2 = .keep)
    (accepted : pipeline.project specification = .ok next) :
    (∃ fields, next.schema = .object ⟨fields, none⟩ ∧
      fields.map Field.name = followers [] (keptPaths leaves)) ∧
    (∀ front, front ≠ [] → followers front (keptPaths leaves) ≠ [] → ∃ node fields,
      (∃ depth, ∀ options : ResolveOptions, depth ≤ options.maxDepth →
        ∃ optional nullable, next.schema.Reaches options front node optional nullable) ∧
      node.core = .object ⟨fields, none⟩ ∧
      fields.map Field.name = followers front (keptPaths leaves)) ∧
    (∀ leaf ∈ leaves,
      match ProjectionLeaf.of leaf.2 with
      | .keep => ∃ resolved optional nullable, pipeline.resolve leaf.1 = .ok resolved ∧
          next.schema.Offers leaf.1 resolved.node optional nullable
      | .drop => leaf.1 = "_id"
      | .compute => ∃ type optional nullable, pipeline.infer leaf.2 = .ok type ∧
          next.schema.Offers leaf.1 type optional nullable) ∧
    ∀ (path : FieldPath) name rest, path.segments = .name name :: rest →
      name ∉ followers [] (keptPaths leaves) → ∀ options : ResolveOptions, 0 < options.maxDepth →
        path.resolve next.schema options = .error ⟨path.render, .unknownField name⟩ := by
  obtain ⟨includes, separate, made⟩ := project_inclusion_eq_ok stated including accepted
  obtain ⟨shape, root⟩ := Schema.isObject_iff.mp object
  have names : (Kept.fields (some shape) (Kept.planted (leaves.filterMap pipeline.kept?))).map
      Field.name = followers [] (keptPaths leaves) := by
    rw [← paths_kept, ← Kept.names_planted separate.filled, Kept.names_fields]
  have closed : next.schema = .object
      ⟨Kept.fields (some shape) (Kept.planted (leaves.filterMap pipeline.kept?)), none⟩ := by
    rw [made, root]
    rfl
  refine ⟨⟨_, closed, names⟩, ?_, ?_, ?_⟩
  · exact fun front filled follow => reaches_level separate made filled follow
  · intro leaf member
    cases kind : ProjectionLeaf.of leaf.2 with
    | keep =>
        obtain ⟨resolved, optional, resolves, offers, _⟩ :=
          offers_included includes separate made member kind
        exact ⟨resolved, optional, _, resolves, offers⟩
    | drop => simpa [kind] using (includes leaf member).value
    | compute => exact offers_computed includes separate made member kind
  · intro path name rest starts unkept options spend
    rw [closed]
    exact resolve_unkept starts (names ▸ unkept) spend

def gallery : Pipeline :=
  { schema := .object ⟨[⟨"title", .string, false, true⟩, ⟨"painters", .array (.object
      ⟨[⟨"name", .string, false, false⟩, ⟨"born", .number, true, false⟩], none⟩), true, false⟩,
      ⟨"labels", .object (.openTo .string), false, false⟩], none⟩ }

def shown : Json :=
  .object [("_id", .bool false), ("painters", .object [("born", .bool true)]),
    ("title", .bool true), ("labels", .object [("en", .bool true)]),
    ("painters.count", .object [("$size", .string "$painters")])]

def shownLeaves : List (String × Json) :=
  [("_id", .bool false), ("painters.born", .bool true), ("title", .bool true),
    ("labels.en", .bool true), ("painters.count", .object [("$size", .string "$painters")])]

theorem project_keeps_exactly_gallery :
    ∃ next, gallery.project shown = .ok next ∧
      (∃ fields, next.schema = .object ⟨fields, none⟩ ∧
        fields.map Field.name = ["painters", "title", "labels"]) ∧
      (∃ node fields options optional nullable,
        next.schema.Reaches options ["painters"] node optional nullable ∧
        node.core = .object ⟨fields, none⟩ ∧ fields.map Field.name = ["born", "count"]) ∧
      (∃ optional nullable, next.schema.Offers "painters.born" .number optional nullable) ∧
      ∃ error, (FieldPath.ofNames ["name"]).resolve next.schema {} = .error error ∧
        error.fault = .unknownField "name" := by
  obtain ⟨next, accepted⟩ : ∃ next, gallery.project shown = .ok next :=
    isOk_iff_exists.mp (by decide +kernel)
  have stated : specificationLeaves "$project" shown = .ok shownLeaves := rfl
  have paths : keptPaths shownLeaves =
      [["painters", "born"], ["title"], ["labels", "en"], ["painters", "count"]] := by decide
  obtain ⟨root, levels, each, others⟩ := project_keeps_exactly rfl stated
    ⟨("title", .bool true), by simp [shownLeaves], rfl⟩ accepted
  rw [paths] at root levels others
  obtain ⟨node, fields, ⟨depth, reaches⟩, core, names⟩ :=
    levels ["painters"] (by decide) (by decide)
  obtain ⟨optional, nullable, reached⟩ := reaches ⟨false, false, depth⟩ (Nat.le_refl depth)
  obtain ⟨resolved, optionalToo, nullableToo, resolves, offers⟩ :=
    each ("painters.born", .bool true) (by simp [shownLeaves])
  cases resolves
  exact ⟨next, accepted, root, ⟨node, fields, _, optional, nullable, reached, core, names⟩,
    ⟨optionalToo, nullableToo, offers⟩, _,
    others (.ofNames ["name"]) "name" [] rfl (by decide) {} (by decide), rfl⟩

/-- What a projection includes keeps its flags, but for a key that an open object does not declare:
it may be absent before, and not afterwards. -/
theorem project_keeps_flags (stated : specificationLeaves "$project" specification = .ok leaves)
    (including : ∃ leaf ∈ leaves, ProjectionLeaf.of leaf.2 = .keep)
    (accepted : pipeline.project specification = .ok next) :
    ∀ leaf ∈ leaves, ProjectionLeaf.of leaf.2 = .keep →
      ∃ resolved optional, pipeline.resolve leaf.1 = .ok resolved ∧
        next.schema.Offers leaf.1 resolved.node optional resolved.arrival.nullable ∧
        if Schema.endsUndeclared (Text.splitDots leaf.1) pipeline.schema
          then resolved.arrival.optional = true ∧ optional = false
          else optional = resolved.arrival.optional := by
  obtain ⟨includes, separate, made⟩ := project_inclusion_eq_ok stated including accepted
  exact fun leaf member keeps => offers_included includes separate made member keeps

theorem project_keeps_flags_gallery :
    ∃ next, gallery.project shown = .ok next ∧
      next.schema.Offers "title" .string false true ∧
      next.schema.Offers "painters.born" .number true false ∧
      (∃ resolved, gallery.resolve "labels.en" = .ok resolved ∧ resolved.arrival.optional = true) ∧
      next.schema.Offers "labels.en" .string false false := by
  obtain ⟨next, accepted⟩ : ∃ next, gallery.project shown = .ok next :=
    isOk_iff_exists.mp (by decide +kernel)
  have stated : specificationLeaves "$project" shown = .ok shownLeaves := rfl
  have flags :=
    project_keeps_flags stated ⟨("title", .bool true), by simp [shownLeaves], rfl⟩ accepted
  obtain ⟨_, _, ⟨⟩, title, kept⟩ := flags ("title", .bool true) (by simp [shownLeaves]) rfl
  obtain ⟨_, _, ⟨⟩, born, keptToo⟩ :=
    flags ("painters.born", .bool true) (by simp [shownLeaves]) rfl
  obtain ⟨_, _, resolves, label, lost⟩ :=
    flags ("labels.en", .bool true) (by simp [shownLeaves]) rfl
  cases kept
  cases keptToo
  cases resolves
  obtain ⟨optional, rfl⟩ := lost
  exact ⟨next, accepted, title, born, ⟨_, rfl, optional⟩, label⟩

end Pipeline

end DocTyping
