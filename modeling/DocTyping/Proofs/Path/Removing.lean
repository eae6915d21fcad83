import DocTyping.Proofs.Path.Lookup
import DocTyping.Proofs.Schema.Removal

namespace DocTyping.Schema

/-!
# Removed paths

A removed path leads nowhere, if nothing on the way has the field all the same: an open
object and an opaque schema have every field.  Paths that are apart from it lead where
they led before.
-/

variable {schema : Schema} {shape : Shape Schema} {name key : String} {names rest : List String}
  {change : Schema → Option Schema}

theorem under?_alter_of_ne (different : key ≠ name) :
    (shape.alter name change).under? key = shape.under? key :=
  Shape.under?_congr (Shape.find?_alter_of_ne different) rfl

/-- A field on the way to a removed one. -/
def within (rest : List String) (field : Field Schema) : Field Schema :=
  { field with node := removePath rest field.node }

theorem under?_removeBelow (filled : rest ≠ []) :
    (shape.alter name (removeBelow rest)).under? name =
      ((shape.find? name).map (within rest)).or
        (shape.additional.map fun node => ⟨name, node, true, false⟩) := by
  rw [removeBelow_of_ne_nil filled, Shape.under?, Shape.find?_alter_some]
  rfl

theorem under?_within {field : Field Schema} (filled : rest ≠ [])
    (declared : shape.find? name = some field) :
    (shape.alter name (removeBelow rest)).under? name = some (within rest field) := by
  rw [under?_removeBelow filled, declared]
  rfl

theorem removePath_agreeApart (names : List String) (schema : Schema) :
    AgreeApart names schema (removePath names schema) := by
  induction names generalizing schema with
  | nil => exact agreeApart_nil
  | cons name rest ih =>
      induction schema using partsInduction with
      | scalar kind =>
          rw [removePath_scalar]
          exact agreeApart_refl _
      | array element inside =>
          rw [removePath_array]
          exact agreeApart_array inside
      | object shape _ _ =>
          rw [removePath_object]
          apply agreeApart_object
          · intro key different
            exact under?_alter_of_ne different
          · intro back apart
            have filled : rest ≠ [] := by
              rintro rfl
              exact apart.1 List.nil_prefix
            rw [under?_removeBelow filled, Shape.under?]
            cases shape.find? name with
            | none => rfl
            | some field =>
                have agree : AgreeApart rest field.node
                  (within rest field).node := ih field.node
                exact agree.locate apart

/-- The field of a removed path is not found in a closed object. -/
theorem under?_removed {field : Field Schema} (distinct : shape.names.Nodup)
    (shut : shape.additional = none)
    (entered : (shape.alter name (removeBelow rest)).under? name = some field) :
    rest ≠ [] ∧ ∃ held, shape.child? name = some held ∧ field.node = removePath rest held := by
  cases rest with
  | nil =>
      have removed : removeBelow [] = fun _ => none := rfl
      rw [removed, Shape.under?, Shape.find?_alter_none distinct, Shape.alter, shut] at entered
      contradiction
  | cons next later =>
      have filled : next :: later ≠ [] := List.cons_ne_nil next later
      rw [under?_removeBelow filled, shut] at entered
      obtain ⟨held, declared, rfl⟩ : ∃ held, shape.find? name = some held ∧
          within (next :: later) held = field := by simpa using entered
      have child := Shape.child?_of_under? (Shape.under?_of_find? declared)
      exact ⟨filled, held.node, child, rfl⟩

/-- A removed path leads nowhere where each object on the way is closed and none is opaque. -/
theorem locate_removePath (filled : names ≠ []) (distinct : schema.NamesDistinct)
    (known : ∀ node ∈ schema.way names, node ≠ unknown)
    (closed : ∀ shape, object shape ∈ schema.way names → shape.additional = none) :
    (removePath names schema).asField.locate names = none := by
  induction names generalizing schema with
  | nil => contradiction
  | cons name rest ih =>
      induction distinct with
      | scalar kind =>
          have plain : kind ≠ .unknown := by
            intro same
            exact known (.scalar kind) List.mem_cons_self (congrArg Schema.scalar same)
          rw [removePath_scalar]
          simp [Field.locate, asField, core, plain]
      | array _ inside =>
          rw [removePath_array, Field.locate_array rfl, inside known closed]
          rfl
      | @object shape distinct fields additional _ _ =>
          rw [removePath_object, Field.locate_object rfl]
          cases entered : (shape.alter name (removeBelow rest)).under? name with
          | none => rfl
          | some field =>
              have shut := closed shape List.mem_cons_self
              obtain ⟨more, held, child, left⟩ := under?_removed distinct shut entered
              have onward : ∀ node ∈ held.way rest, node ∈ (object shape).way (name :: rest) := by
                intro node member
                rw [way_object, child]
                exact List.mem_cons_of_mem _ member
              have whole := namesFit_nodup_iff.mpr (.object distinct fields additional)
              have inside : held.NamesDistinct := namesFit_nodup_iff.mp (whole.child child)
              have same : field.node = (removePath rest held).asField.node := left
              have missed := ih more inside (fun node member => known node (onward node member))
                fun shape member => closed shape (onward _ member)
              rw [Option.bind_some, Field.locate_congr more same, missed]
              rfl

end DocTyping.Schema
