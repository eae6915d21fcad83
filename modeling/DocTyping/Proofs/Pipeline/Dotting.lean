import DocTyping.Proofs.Pipeline.Additions
import DocTyping.Proofs.Pipeline.Projections
import DocTyping.Proofs.Pipeline.Replay

namespace DocTyping

/-!
# Nested and dotted specifications

Of a specification a stage reads the leaves and nothing else.  An object that only groups keys has
the leaves of its entries, each below a dotted key, so these entries may stand in its place.
-/

/-- The entries of an object at a key, each at its dotted key. -/
def dotted (key : String) (entries : List (String × Json)) : List (String × Json) :=
  entries.map fun entry => (key ++ "." ++ entry.1, entry.2)

variable {pipeline : Pipeline} {stage key front name : String} {value : Json} {schema : Schema}
  {leaf : String × Json} {entries others inner before after leaves : List (String × Json)}

/-! ### Leaves -/

theorem groupsKeys_iff :
    groupsKeys entries = true ↔
      entries ≠ [] ∧ Json.extendedKind? entries = none ∧
        ∀ entry ∈ entries, Text.startsWithDollar entry.1 = false := by
  simp [groupsKeys, hasOperatorKey, and_assoc]

theorem flattenEntries_append :
    flattenEntries front (entries ++ others) =
      flattenEntries front entries ++ flattenEntries front others := by
  simp only [flattenEntries_eq_flatMap, List.flatMap_append]

theorem flattenEntries_dotted :
    flattenEntries front (dotted key entries) = flattenEntries (front ++ key ++ ".") entries := by
  simp only [flattenEntries_eq_flatMap, dotted, List.flatMap_map, String.append_assoc]

/-- An object that groups keys has the leaves of its entries. -/
theorem flattenEntries_grouped (groups : groupsKeys inner = true) :
    flattenEntries front (before ++ (key, .object inner) :: after) =
      flattenEntries front (before ++ dotted key inner ++ after) := by
  rw [flattenEntries_append, flattenEntries_append, flattenEntries_append, flattenEntries_dotted,
    flattenEntries, flattenLeaf, if_pos groups, List.append_assoc]

theorem exists_leaf_below : ∀ (value : Json) (key : String),
    ∃ leaf ∈ flattenLeaf key value, key.toList <+: leaf.1.toList
  | .object entries, key => by
      by_cases groups : groupsKeys entries = true
      · obtain ⟨⟨name, first⟩, rest, rfl⟩ :=
          List.exists_cons_of_ne_nil (groupsKeys_iff.mp groups).1
        obtain ⟨leaf, member, below⟩ := exists_leaf_below first (key ++ "." ++ name)
        refine ⟨leaf, ?_, .trans ?_ below⟩
        · rw [flattenLeaf, if_pos groups, flattenEntries]
          exact List.mem_append_left _ member
        · simp
      · exact ⟨(key, .object entries), by simp [flattenLeaf, groups], List.prefix_rfl⟩
  | .null, key | .bool _, key | .number _, key | .string _, key | .array _, key =>
      ⟨_, List.mem_cons_self, List.prefix_rfl⟩

theorem startsWithDollar_of_prefix (below : key.toList <+: name.toList)
    (dollar : Text.startsWithDollar key = true) : Text.startsWithDollar name = true := by
  obtain ⟨chars, extended⟩ := below
  obtain ⟨rest, starts⟩ := List.head?_eq_some_iff.mp (beq_iff_eq.mp dollar)
  simp [Text.startsWithDollar, ← extended, starts]

theorem exists_dollar_leaf (operators : isOperatorObject entries = true) :
    ∃ leaf ∈ flattenEntries "" entries, Text.startsWithDollar leaf.1 = true := by
  cases entries with
  | nil => contradiction
  | cons entry rest =>
      obtain ⟨leaf, member, below⟩ := exists_leaf_below entry.2 ("" ++ entry.1)
      simp only [isOperatorObject, Bool.and_eq_true, List.all_cons] at operators
      refine ⟨leaf, List.mem_append_left _ member, startsWithDollar_of_prefix below ?_⟩
      rw [String.empty_append]
      exact operators.2.1

theorem specificationLeaves_object_eq_ok :
    specificationLeaves stage (.object entries) = .ok leaves ↔
      entries ≠ [] ∧ isOperatorObject entries = false ∧ flattenEntries "" entries = leaves := by
  cases entries with
  | nil => simp [specificationLeaves]
  | cons entry rest =>
      cases operators : isOperatorObject (entry :: rest) with
      | false => simp [specificationLeaves, operators]
      | true => simp [specificationLeaves, operators]

/-! ### Stages that read leaves -/

/-- A schema is derived from the leaves of a specification, whose keys are paths of names. -/
structure ReadsLeaves (stage : String) (derive : Json → Checked Schema) : Prop where
  leaves : ∀ first second, specificationLeaves stage first = specificationLeaves stage second →
    derive first = derive second
  named : ∀ specification schema, derive specification = .ok schema →
    ∃ leaves, specificationLeaves stage specification = .ok leaves ∧
      ∀ leaf ∈ leaves, ∃ names, fieldNames stage leaf.1 = .ok names

namespace ReadsLeaves

variable {derive : Json → Checked Schema}

theorem eq_ok_of_leaves (reads : ReadsLeaves stage derive) (filled : others ≠ [])
    (same : flattenEntries "" entries = flattenEntries "" others)
    (accepted : derive (.object entries) = .ok schema) : derive (.object others) = .ok schema := by
  obtain ⟨leaves, stated, named⟩ := reads.named _ _ accepted
  have listed := (specificationLeaves_object_eq_ok.mp stated).2.2
  have plain : isOperatorObject others = false := by
    by_contra operators
    obtain ⟨leaf, member, dollar⟩ := exists_dollar_leaf (Bool.not_eq_false _ ▸ operators)
    obtain ⟨names, read⟩ := named leaf (listed ▸ same ▸ member)
    simp [fieldNames_undollared read] at dollar
  rw [← accepted]
  refine reads.leaves _ _ ?_
  rw [stated]
  exact specificationLeaves_object_eq_ok.mpr ⟨filled, plain, same.symm.trans listed⟩

/-- Specifications of the same leaves give the same schema, or none of them gives one. -/
theorem toOption_eq_of_leaves (reads : ReadsLeaves stage derive) (filled : entries ≠ [])
    (filledToo : others ≠ []) (same : flattenEntries "" entries = flattenEntries "" others) :
    (derive (.object entries)).toOption = (derive (.object others)).toOption := by
  refine Option.ext fun schema => ?_
  simp only [toOption_eq_some_iff]
  exact ⟨reads.eq_ok_of_leaves filledToo same, reads.eq_ok_of_leaves filled same.symm⟩

end ReadsLeaves

namespace Pipeline

theorem readLeaves_named {α : Type} {read : String → Json → List String → α → Checked α}
    {start : α} {projected : Projected α} (accepted : readLeaves read leaves start = .ok projected)
    (member : leaf ∈ leaves) : ∃ names, fieldNames "$project" leaf.1 = .ok names := by
  induction leaves generalizing start projected with
  | nil => contradiction
  | cons head rest ih =>
      obtain ⟨key, value⟩ := head
      simp only [readLeaves, bind_eq_ok] at accepted
      obtain ⟨names, named, _, _, _, later, _⟩ := accepted
      rcases List.mem_cons.mp member with rfl | inside
      · exact ⟨names, named⟩
      · exact ih later inside

theorem readsLeaves_projected (pipeline : Pipeline) :
    ReadsLeaves "$project" pipeline.projected := by
  constructor
  · intro first second same
    rw [projected, same, ← projected]
  · intro specification schema accepted
    obtain ⟨leaves, stated, accepted⟩ := bind_eq_ok.mp accepted
    refine ⟨leaves, stated, fun leaf member => ?_⟩
    split at accepted
    · obtain ⟨_, read, _⟩ := bind_eq_ok.mp accepted
      exact readLeaves_named read member
    · obtain ⟨_, read, _⟩ := bind_eq_ok.mp accepted
      exact readLeaves_named read member

theorem readsLeaves_withAdditions (pipeline : Pipeline) (stage : String) :
    ReadsLeaves stage (pipeline.withAdditions stage) := by
  constructor
  · intro first second same
    rw [withAdditions, same, ← withAdditions]
  · intro specification schema accepted
    obtain ⟨leaves, stated, _⟩ := bind_eq_ok.mp accepted
    obtain ⟨addable, _⟩ := (withAdditions_eq_ok stated).mp accepted
    refine ⟨leaves, stated, fun leaf member => ?_⟩
    exact ⟨_, fieldNames_eq_ok.mpr (addable.each leaf member).names⟩

/-- The schema after a stage, if the stage is accepted. -/
def schemaAfter? (pipeline : Pipeline) (name : String) (arguments : Json) : Option Schema :=
  (pipeline.extend (.object [(name, arguments)])).toOption.map Pipeline.schema

theorem schemaAfter?_of_reshape {derived : Checked Schema}
    (extended : pipeline.extend (.object [(name, value)]) = pipeline.reshape name value derived) :
    pipeline.schemaAfter? name value = derived.toOption := by
  rw [schemaAfter?, extended]
  cases derived <;> rfl

/-- The stages that read leaves. -/
def leafStages : List String := ["$project", "$addFields", "$set"]

theorem exists_readsLeaves (pipeline : Pipeline) (listed : name ∈ leafStages) :
    ∃ derive, ReadsLeaves name derive ∧
      ∀ value, pipeline.schemaAfter? name value = (derive value).toOption := by
  simp only [leafStages, List.mem_cons, List.not_mem_nil, or_false] at listed
  rcases listed with rfl | rfl | rfl
  · exact ⟨_, readsLeaves_projected pipeline, fun _ =>
      schemaAfter?_of_reshape (extend_flat rfl (by decide))⟩
  · exact ⟨_, readsLeaves_withAdditions pipeline "$addFields", fun _ =>
      schemaAfter?_of_reshape (extend_flat rfl (by decide))⟩
  · exact ⟨_, readsLeaves_withAdditions pipeline "$set", fun _ =>
      schemaAfter?_of_reshape (extend_flat rfl (by decide))⟩

/-- An object that groups keys, in the specification of a stage, may be replaced by its entries at
dotted keys: both specifications are refused, or they lead to the same schema. -/
theorem dotted_interchangeable (pipeline : Pipeline) (listed : name ∈ leafStages) (key : String)
    (before after inner : List (String × Json)) (filled : inner ≠ [])
    (plain : ∀ entry ∈ inner, Text.startsWithDollar entry.1 = false)
    (unwrapped : Json.extendedKind? inner = none) :
    pipeline.schemaAfter? name (.object (before ++ (key, .object inner) :: after)) =
      pipeline.schemaAfter? name (.object (before ++ dotted key inner ++ after)) := by
  obtain ⟨derive, reads, derived⟩ := pipeline.exists_readsLeaves listed
  rw [derived, derived]
  refine reads.toOption_eq_of_leaves (by simp) (by simp [dotted, filled]) ?_
  exact flattenEntries_grouped (groupsKeys_iff.mpr ⟨filled, unwrapped, plain⟩)

def nestedYears : Json :=
  .object [("title", .bool true), ("painters", .object [("born", .bool true)]),
    ("name", .string "$title")]

def dottedYears : Json :=
  .object [("title", .bool true), ("painters.born", .bool true), ("name", .string "$title")]

theorem dotted_interchangeable_gallery :
    ∃ schema, gallery.schemaAfter? "$project" nestedYears = some schema ∧
      gallery.schemaAfter? "$project" dottedYears = some schema := by
  have same : gallery.schemaAfter? "$project" nestedYears =
      gallery.schemaAfter? "$project" dottedYears :=
    gallery.dotted_interchangeable (by decide) "painters" [("title", .bool true)]
      [("name", .string "$title")] [("born", .bool true)] (by decide) (by decide) rfl
  obtain ⟨schema, accepted⟩ : ∃ schema, gallery.schemaAfter? "$project" nestedYears = some schema :=
    Option.isSome_iff_exists.mp (by decide +kernel)
  exact ⟨schema, accepted, same.symm.trans accepted⟩

end Pipeline

end DocTyping
