import DocTyping.Proofs.Path.Writing

namespace DocTyping.Schema

/-!
# Unwound paths

The path of an unwound array leads to its elements afterwards.  A path that went on from
the array skipped one array level there; it leads to the same place, and skips the level
no more.  Paths that are apart from that of the array lead where they led before.
-/

variable {schema element : Schema} {shape : Shape Schema} {slot : Slot} {field : Field Schema}
  {name key : String} {names rest back : List String} {found : Found}

/-- The field that an unwinding leaves in an object on the way. -/
def unwoundField (slot : Slot) (name : String) (rest : List String) (shape : Shape Schema)
    (child : Schema) : Field Schema :=
  let added := if rest.isEmpty then slot else {}
  { name
    node := unwindPath slot rest child
    optional := shape.isOptional name || added.optional
    nullable := shape.isNullable name || added.nullable }

theorem unwindPath_of_lacks (lacks : shape.under? name = none) :
    unwindPath slot (name :: rest) (object shape) = object shape := by
  have absent : shape.child? name = none := by
    rw [Shape.child?_eq_under?, lacks]
    rfl
  simp [unwindPath, underArrays, absent]

theorem unwindPath_object (held : shape.under? name = some field) :
    unwindPath slot (name :: rest) (object shape) =
      object (shape.put (unwoundField slot name rest shape field.node)) := by
  simp only [unwindPath, underArrays, Shape.child?_of_under? held]
  rfl

theorem under?_unwoundField (child : Schema) :
    (shape.put (unwoundField slot name rest shape child)).under? name =
      some (unwoundField slot name rest shape child) :=
  Shape.under?_put_self rfl

theorem unwindPath_agreeApart (slot : Slot) (names : List String) (schema : Schema) :
    AgreeApart names schema (unwindPath slot names schema) := by
  induction names generalizing schema with
  | nil => exact agreeApart_nil
  | cons name rest ih =>
      induction schema using partsInduction with
      | scalar kind => exact agreeApart_refl _
      | array element inside => exact agreeApart_array inside
      | object shape _ _ =>
          cases held : shape.under? name with
          | none =>
              rw [unwindPath_of_lacks held]
              exact agreeApart_refl _
          | some field =>
              rw [unwindPath_object held]
              apply agreeApart_object
              · intro key different
                exact Shape.under?_put_of_ne different
              · intro back apart
                have agree : AgreeApart rest field.node
                    (unwoundField slot name rest shape field.node).node := ih field.node
                rw [under?_unwoundField, held]
                exact agree.locate apart

theorem locate_unwound (object : schema.core = .object shape)
    (held : shape.under? name = some field) :
    (unwindPath slot (name :: rest) schema).asField.locate (name :: back) =
      ((unwoundField slot name rest shape field.node).locate back).map
        (Found.behind schema.levels) := by
  have made : unwindPath slot (name :: rest) (.object shape) = _ := unwindPath_object held
  rw [← object] at made
  have inside : ∀ element, unwindPath slot (name :: rest) (array element) =
    array (unwindPath slot (name :: rest) element) := fun _ => rfl
  rw [locate_of_change inside made, under?_unwoundField, Option.bind_some]

theorem behind_inElements (levels : Nat) (found : Found) :
    found.inElements.behind levels = (found.behind levels).inElements := by
  simp [Found.behind, Found.inElements, Nat.add_assoc]

/-- The path of an unwound array leads to its elements, by as many moves. -/
theorem locate_unwindPath (slot : Slot) (filled : names ≠ [])
    (located : schema.asField.locate names = some found) (array : found.node = .array element) :
    ∃ optional nullable, (unwindPath slot names schema).asField.locate names =
      some { found with node := element, optional, nullable } := by
  induction names generalizing schema found with
  | nil => contradiction
  | cons name rest ih =>
      rcases locate_cons_eq_some located with
        ⟨_, rfl⟩ | ⟨shape, field, below, object, held, inside, rfl⟩
      · contradiction
      · rw [locate_unwound object held]
        cases rest with
        | nil =>
            cases inside
            have elements : unwindPath slot [] field.node = element := by
              rw [unwindPath, show field.node = .array element from array]
              rfl
            have entered : (unwoundField slot name [] shape field.node).locate [] = some
                ⟨element, shape.isOptional name || slot.optional,
                  shape.isNullable name || slot.nullable, false, 0⟩ := by
              simp [Field.locate, unwoundField, elements]
            exact ⟨_, _, congrArg _ entered⟩
        | cons next later =>
            have inner : field.node.asField.locate (next :: later) = some below := inside
            obtain ⟨optional, nullable, reached⟩ := ih (List.cons_ne_nil _ _) inner array
            have entered : (unwoundField slot name (next :: later) shape field.node).locate
                (next :: later) = some { below with node := element, optional, nullable } := reached
            exact ⟨optional, nullable, congrArg _ entered⟩

/-- A path that goes on from an array skipped an array level there before the unwinding. -/
theorem locate_below_unwindPath (slot : Slot) (filled : names ≠ [])
    (located : schema.asField.locate names = some found) (array : found.node = .array element) :
    schema.asField.locate (names ++ key :: back) =
      ((unwindPath slot names schema).asField.locate (names ++ key :: back)).map
        Found.inElements := by
  induction names generalizing schema found with
  | nil => contradiction
  | cons name rest ih =>
      rcases locate_cons_eq_some located with
        ⟨_, rfl⟩ | ⟨shape, field, below, object, held, inside, rfl⟩
      · contradiction
      · have entered : field.locate (rest ++ key :: back) =
            ((unwoundField slot name rest shape field.node).locate (rest ++ key :: back)).map
              Found.inElements := by
          cases rest with
          | nil =>
              cases inside
              have stored : field.node = .array element := array
              have elements : (unwoundField slot name [] shape field.node).node = element := by
                rw [unwoundField, unwindPath, stored]
                rfl
              rw [List.nil_append, Field.locate_array stored,
                Field.locate_congr (List.cons_ne_nil _ _) elements.symm]
          | cons next later =>
              have inner : field.node.asField.locate (next :: later) = some below := inside
              exact ih (List.cons_ne_nil _ _) inner array
        rw [List.cons_append, locate_unwound object held, locate_of_core object held, entered,
          Option.map_map, Option.map_map]
        exact congrArg (Option.map · _) (funext (behind_inElements schema.levels))

/-- After an unwinding every path but the beginnings of its own leads where it led before; one that
goes on from the array needs one move less. -/
theorem reaches_unwindPath_iff {others : List String} {options : ResolveOptions} {node : Schema}
    {optional nullable : Bool} (slot : Slot) (filled : names ≠ [])
    (located : schema.asField.locate names = some found) (array : found.node = .array element)
    (other : ¬ others <+: names) :
    (unwindPath slot names schema).Reaches options others node optional nullable ↔
      schema.Reaches
        { options with maxDepth := options.maxDepth + if names <+: others then 1 else 0 }
        others node optional nullable := by
  have stepped : others ≠ [] := by
    rintro rfl
    exact other List.nil_prefix
  rw [reaches_iff stepped, reaches_iff stepped]
  by_cases below : names <+: others
  · obtain ⟨back, rfl⟩ := below
    have onward : back ≠ [] := by
      rintro rfl
      simp at other
    obtain ⟨key, back, rfl⟩ := List.exists_cons_of_ne_nil onward
    rw [if_pos (List.prefix_append _ _), locate_below_unwindPath slot filled located array]
    constructor
    · rintro ⟨across, moves, reached, within⟩
      exact ⟨true, moves + 1, congrArg _ reached, Nat.succ_le_succ within⟩
    · rintro ⟨_, _, skipped, within⟩
      obtain ⟨reached, entered, same⟩ := Option.map_eq_some_iff.mp skipped
      cases same
      exact ⟨_, _, entered, Nat.le_of_succ_le_succ within⟩
  · rw [if_neg below, Nat.add_zero, unwindPath_agreeApart slot names schema others ⟨below, other⟩]

end DocTyping.Schema
