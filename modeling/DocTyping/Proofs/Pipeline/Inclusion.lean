import DocTyping.Proofs.Path.Lookup
import DocTyping.Proofs.Pipeline.Names
import DocTyping.Proofs.Pipeline.Planting

namespace DocTyping

/-!
# What an inclusion keeps

A tree of separate leaves keeps of a schema what its leaves lead to.  Each level that it
builds is a closed object of the names that follow in the paths of the leaves, below as
many array levels as the schema has there.
-/

theorem Shape.flags_of_under? {α : Type} {shape : Shape α} {name : String} {field : Field α}
    (held : shape.under? name = some field) :
    (if shape.isOpen && !shape.declares name then
        field.optional = true ∧ shape.isOptional name = false
      else shape.isOptional name = field.optional) ∧ shape.isNullable name = field.nullable := by
  cases declared : shape.find? name with
  | some entry =>
      have same : entry = field := by simpa [under?, declared] using held
      simp [isOptional, isNullable, declares, declared, same]
  | none =>
      obtain ⟨node, admitted, rfl⟩ : ∃ node, shape.additional = some node ∧
          ⟨name, node, true, false⟩ = field := by
        simpa [under?, declared] using held
      simp [isOptional, isNullable, isOpen, declares, declared, admitted]

namespace Schema

/-- Whether a path ends at a key that an open object does not declare. -/
def endsUndeclared : List String → Schema → Bool
  | [], _ => false
  | [name], schema => schema.core.shape?.any fun shape => shape.isOpen && !shape.declares name
  | name :: rest, schema =>
    (schema.core.shape?.bind fun shape => shape.child? name).any (endsUndeclared rest)

theorem endsUndeclared_onward {schema : Schema} {name key : String} {rest : List String} :
    endsUndeclared (name :: key :: rest) schema =
      (schema.core.shape?.bind fun shape => shape.child? name).any
        (endsUndeclared (key :: rest)) := rfl

end Schema

namespace Kept

variable {leaves : Leaves} {leaf kept : Kept} {tree children : Keyed Kept} {name key : String}
  {names rest front : List String} {shape : Option (Shape Schema)} {source : Schema} {found : Found}

theorem under?_fields :
    (⟨fields shape tree, none⟩ : Shape Schema).under? name =
      (tree.get? name).map (fieldOf shape name) := by
  rw [fields_eq_map]
  induction tree with
  | nil => rfl
  | cons entry rest ih =>
      obtain ⟨held, kept⟩ := entry
      simp only [Shape.under?, Shape.find?, Keyed.get?, Option.map_none, Option.or_none,
        List.map_cons, List.find?_cons, name_fieldOf] at ih ⊢
      by_cases same : held = name
      · subst same
        simp
      · rw [Keyed.lookup_cons_of_ne same, ← ih, beq_false_of_ne same]

theorem names_fields : (fields shape tree).map Field.name = tree.names := by
  rw [fields_eq_map]
  simp [Keyed.names, Function.comp_def, name_fieldOf]

theorem apply_core : apply tree source.core = .object ⟨fields source.core.shape? tree, none⟩ := by
  induction source using Schema.partsInduction with
  | scalar kind => rfl
  | array element inside => exact inside
  | object shape _ _ => rfl

theorem apply_array (element : Schema) :
    apply tree (.array element) = .array (apply tree element) := rfl

theorem core_apply : (apply tree source).core = .object ⟨fields source.core.shape? tree, none⟩ :=
  (Schema.core_and_levels_of_change apply_array apply_core).1

theorem locate_apply (held : tree.get? name = some kept) :
    (apply tree source).asField.locate (name :: rest) =
      ((fieldOf source.core.shape? name kept).locate rest).map (Found.behind source.levels) := by
  rw [Schema.locate_of_change apply_array apply_core, under?_fields, held, Option.map_some,
    Option.bind_some]

/-- What a projection goes on from under a name: an object without fields if nothing is there. -/
def inside (name : String) (source : Schema) : Schema :=
  (source.core.shape?.bind fun shape => shape.child? name).getD (.object .empty)

theorem node_fieldOf_nested :
    (fieldOf source.core.shape? name (.nested children)).node =
      (apply children (inside name source)).asField.node := by
  unfold inside fieldOf
  cases source.core.shape?.bind fun shape => shape.child? name with
  | none => rfl
  | some child => rfl

def placed (leaf : Kept) : List String → Schema → Field Schema
  | [], source => source.asField
  | [name], source => fieldOf source.core.shape? name leaf
  | name :: rest, source => placed leaf rest (inside name source)

theorem placed_onward : placed leaf (name :: key :: rest) source =
    placed leaf (key :: rest) (inside name source) := rfl

theorem locate_leaf (separate : Separate leaves) (member : (names, leaf) ∈ leaves) :
    ∃ across moves, (apply (planted leaves) source).asField.locate names =
      some ⟨(placed leaf names source).node, (placed leaf names source).optional,
        (placed leaf names source).nullable, across, moves⟩ := by
  induction names generalizing leaves source with
  | nil => exact absurd rfl (separate.filled _ member)
  | cons name rest ih =>
      cases rest with
      | nil =>
          rw [locate_apply (get?_planted_leaf separate member)]
          exact ⟨_, _, rfl⟩
      | cons key back =>
          obtain ⟨held, inner⟩ := get?_planted_onward separate member
          obtain ⟨across, moves, located⟩ := @ih _ (inside name source) inner (mem_under.mpr member)
          rw [locate_apply held, Field.locate_congr (List.cons_ne_nil _ _) node_fieldOf_nested,
            located]
          exact ⟨_, _, rfl⟩

theorem exists_filled_of_followers {paths : List (List String)}
    (follow : followers front paths ≠ []) : ∃ path ∈ paths, path ≠ [] := by
  by_contra missing
  push Not at missing
  apply follow
  have nothing : paths.filterMap (fun path => if front <+: path then path[front.length]? else none)
      = [] := by
    refine List.filterMap_eq_nil_iff.mpr fun path member => ?_
    rw [missing path member]
    simp
  rw [followers, nothing, List.eraseDups_nil]

theorem node_locate_congr {field other : Field Schema} (same : field.node = other.node) :
    (field.locate names).map Found.node = (other.locate names).map Found.node := by
  cases names with
  | nil => exact congrArg some same
  | cons name rest => rw [Field.locate_congr (List.cons_ne_nil _ _) same]

/-- Each level on the way to a leaf is an object of the names that go on from there. -/
theorem locate_level (separate : Separate leaves)
    (follow : followers front (leaves.map Prod.fst) ≠ []) :
    ∃ node fields,
      ((apply (planted leaves) source).asField.locate front).map Found.node = some node ∧
      node.core = .object ⟨fields, none⟩ ∧
      fields.map Field.name = followers front (leaves.map Prod.fst) := by
  induction front generalizing leaves source with
  | nil =>
      refine ⟨_, _, rfl, core_apply, ?_⟩
      rw [← names_planted separate.filled, names_fields]
  | cons name rest ih =>
      rw [followers_cons] at follow ⊢
      obtain ⟨path, listed, filled⟩ := exists_filled_of_followers follow
      obtain ⟨⟨path, leaf⟩, entered, rfl⟩ := List.mem_map.mp listed
      obtain ⟨key, back, rfl⟩ := List.exists_cons_of_ne_nil filled
      obtain ⟨held, inner⟩ := get?_planted_onward separate (mem_under.mp entered)
      obtain ⟨node, fields, located, core, named⟩ := @ih _ (inside name source) inner follow
      refine ⟨node, fields, ?_, core, named⟩
      rw [locate_apply held, Option.map_map]
      exact (node_locate_congr node_fieldOf_nested).trans located

theorem placed_computed (type : Schema) (filled : names ≠ []) :
    (placed (.computed type) names source).node = type := by
  induction names generalizing source with
  | nil => contradiction
  | cons name rest ih =>
      cases rest with
      | nil => rfl
      | cons key back => exact ih (List.cons_ne_nil _ _)

theorem placed_field_empty (filled : names ≠ []) :
    ∃ name, placed .field names (.object .empty) = ⟨name, .unknown, true, false⟩ := by
  induction names with
  | nil => contradiction
  | cons name rest ih =>
      cases rest with
      | nil => exact ⟨name, rfl⟩
      | cons key back => exact ih (List.cons_ne_nil _ _)

theorem placed_field (filled : names ≠ []) (located : source.asField.locate names = some found) :
    (placed .field names source).node = found.node ∧
      (if Schema.endsUndeclared names source then
          found.optional = true ∧ (placed .field names source).optional = false
        else (placed .field names source).optional = found.optional) ∧
      (placed .field names source).nullable = found.nullable := by
  induction names generalizing source found with
  | nil => contradiction
  | cons name rest ih =>
      rcases Schema.locate_cons_eq_some located with
        ⟨opaque_, rfl⟩ | ⟨shape, field, below, object, held, onward, rfl⟩
      · have nothing : (source.core.shape?.bind fun shape => shape.child? name) = none := by
          rw [opaque_]
          rfl
        cases rest with
        | nil =>
            simp [placed, fieldOf, Schema.endsUndeclared, opaque_, Schema.unknown, Schema.shape?,
              Found.behind]
        | cons key back =>
            obtain ⟨name, same⟩ := placed_field_empty (List.cons_ne_nil key back)
            rw [placed_onward, Schema.endsUndeclared_onward, inside, nothing, Option.getD_none,
              same]
            exact ⟨rfl, rfl, rfl⟩
      · have child : (source.core.shape?.bind fun shape => shape.child? name) =
            some field.node := by
          rw [object]
          exact Shape.child?_of_under? held
        cases rest with
        | nil =>
            obtain ⟨optional, nullable⟩ := Shape.flags_of_under? held
            cases onward
            have ends : Schema.endsUndeclared [name] source =
                (shape.isOpen && !shape.declares name) := by
              rw [Schema.endsUndeclared, object]
              rfl
            have made : placed .field [name] source =
                ⟨name, field.node, shape.isOptional name, shape.isNullable name⟩ := by
              rw [placed, fieldOf, child, object]
              simp [Schema.shape?]
            rw [ends, made]
            exact ⟨rfl, optional, nullable⟩
        | cons key back =>
            have inner : field.node.asField.locate (key :: back) = some below := onward
            rw [placed_onward, Schema.endsUndeclared_onward, inside, child, Option.getD_some,
              Option.any_some]
            have reached := ih (List.cons_ne_nil _ _) inner
            exact reached

end Kept

end DocTyping
