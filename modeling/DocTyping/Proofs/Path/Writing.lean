import DocTyping.Proofs.Path.Lookup
import DocTyping.Schema.Reshape

namespace DocTyping

/-!
# Written paths

What is written at a path is found there, under the flags of the slot.  Every path that
is apart from it leads where it led before, if the write passes no opaque schema: an
opaque schema has every field, and the object that replaces it has only the new one.
-/

namespace Shape

variable {α : Type} {shape : Shape α} {added : Field α} {key : String}

theorem under?_put_self (named : added.name = key) : (shape.put added).under? key = some added := by
  rw [under?, find?_put, if_pos named]
  rfl

theorem under?_put_of_ne (different : key ≠ added.name) :
    (shape.put added).under? key = shape.under? key := by
  rw [under?, find?_put, if_neg (Ne.symm different)]
  rfl

end Shape

namespace Schema

variable {schema element value : Schema} {shape : Shape Schema} {slot : Slot} {name : String}
  {names rest : List String}

/-- The field that a write leaves in an object on the way. -/
def writtenField (value : Schema) (slot : Slot) (name : String) (rest : List String)
    (shape : Shape Schema) : Field Schema where
  name := name
  node := setPath value slot rest ((shape.child? name).getD (.object .empty))
  optional := if rest.isEmpty then slot.optional else shape.isOptional name
  nullable := rest.isEmpty && slot.nullable

theorem setPath_array : setPath value slot (name :: rest) (array element) =
    array (setPath value slot (name :: rest) element) := by
  cases rest <;> rfl

theorem setPath_object : setPath value slot (name :: rest) (object shape) =
    object (shape.put (writtenField value slot name rest shape)) := by
  cases rest <;> rfl

theorem setPath_scalar (kind : ScalarKind) : setPath value slot (name :: rest) (scalar kind) =
    setPath value slot (name :: rest) (object .empty) := by
  cases rest <;> rfl

theorem under?_writtenField : (shape.put (writtenField value slot name rest shape)).under? name =
    some (writtenField value slot name rest shape) :=
  Shape.under?_put_self rfl

theorem locate_setPath_object (below : ∀ schema, rest ≠ [] → ∃ across moves,
      (setPath value slot rest schema).asField.locate rest =
        some ⟨value, slot.optional, slot.nullable, across, moves⟩) (shape : Shape Schema) :
    ∃ across moves, (setPath value slot (name :: rest) (.object shape)).asField.locate
      (name :: rest) = some ⟨value, slot.optional, slot.nullable, across, moves⟩ := by
  have reached : ∃ across moves, (writtenField value slot name rest shape).locate rest =
      some ⟨value, slot.optional, slot.nullable, across, moves⟩ := by
    cases rest with
    | nil => exact ⟨false, 0, rfl⟩
    | cons next later =>
        rw [Field.locate_congr (by simp) rfl]
        exact below _ (by simp)
  obtain ⟨across, moves, found⟩ := reached
  rw [setPath_object, Field.locate_object rfl, under?_writtenField, Option.bind_some, found]
  exact ⟨_, _, rfl⟩

theorem locate_setPath (value : Schema) (slot : Slot) (filled : names ≠ []) (schema : Schema) :
    ∃ across moves, (setPath value slot names schema).asField.locate names =
      some ⟨value, slot.optional, slot.nullable, across, moves⟩ := by
  induction names generalizing schema with
  | nil => contradiction
  | cons name rest ih =>
      have below := fun schema filled => ih filled schema
      induction schema using partsInduction with
      | scalar kind =>
          rw [setPath_scalar]
          exact locate_setPath_object below .empty
      | array element inside =>
          obtain ⟨across, moves, found⟩ := inside
          rw [setPath_array, Field.locate_array rfl, found]
          exact ⟨_, _, rfl⟩
      | object shape _ _ => exact locate_setPath_object below shape

theorem way_empty : ∀ node ∈ (object .empty).way names, node ≠ unknown := by
  cases names with
  | nil => simp [way]
  | cons name rest => simp [way_object, Shape.child?_eq_under?, unknown]

theorem locate_empty (filled : names ≠ []) : (object .empty).asField.locate names = none := by
  cases names with
  | nil => contradiction
  | cons name rest => rw [Field.locate_object rfl, Shape.under?_empty]; rfl

/-- The written field leads, apart from the rest of the path, where the old one led. -/
theorem locate_writtenField {back : List String} (apart : Apart rest back)
    (below : ∀ schema, (∀ node ∈ schema.way rest, node ≠ unknown) →
      AgreeApart rest schema (setPath value slot rest schema))
    (known : ∀ node ∈ (object shape).way (name :: rest), node ≠ unknown) :
    (writtenField value slot name rest shape).locate back =
      (shape.under? name).bind (Field.locate back) := by
  cases entry : shape.under? name with
  | none =>
      have child : (shape.child? name).getD (.object .empty) = .object .empty := by
        rw [Shape.child?_eq_under?, entry]
        rfl
      have agree : AgreeApart rest (object .empty).asField.node
          (writtenField value slot name rest shape).node := by
        rw [writtenField, child]
        exact below _ way_empty
      rw [agree.locate apart, locate_empty apart.ne_nil]
      rfl
  | some field =>
      have child := Shape.child?_of_under? entry
      have inside : ∀ node ∈ field.node.way rest, node ≠ unknown := by
        intro node member
        apply known node
        rw [way_object, child]
        exact List.mem_cons_of_mem _ member
      have agree : AgreeApart rest field.node (writtenField value slot name rest shape).node := by
        rw [writtenField, child]
        exact below _ inside
      exact agree.locate apart

theorem setPath_object_agreeApart (below : ∀ schema, (∀ node ∈ schema.way rest, node ≠ unknown) →
      AgreeApart rest schema (setPath value slot rest schema))
    (known : ∀ node ∈ (object shape).way (name :: rest), node ≠ unknown) :
    AgreeApart (name :: rest) (object shape)
      (setPath value slot (name :: rest) (object shape)) := by
  rw [setPath_object]
  apply agreeApart_object
  · intro key different
    exact Shape.under?_put_of_ne different
  · intro back apart
    rw [under?_writtenField, Option.bind_some]
    exact locate_writtenField apart below known

theorem setPath_agreeApart (known : ∀ node ∈ schema.way names, node ≠ unknown) :
    AgreeApart names schema (setPath value slot names schema) := by
  induction names generalizing schema with
  | nil => exact agreeApart_nil
  | cons name rest ih =>
      have below := fun schema known => @ih schema known
      induction schema using partsInduction with
      | scalar kind =>
          have plain : kind ≠ .unknown := by
            intro same
            exact known (.scalar kind) List.mem_cons_self (congrArg Schema.scalar same)
          -- A scalar has no fields, and neither has the object that the write starts from.
          intro others apart
          rw [setPath_scalar, setPath_object_agreeApart below way_empty others apart,
            locate_empty apart.ne_nil]
          cases others with
          | nil => exact absurd rfl apart.ne_nil
          | cons key back => simp [Field.locate, asField, core, plain]
      | array element inside =>
          rw [setPath_array]
          exact agreeApart_array (inside known)
      | object shape _ _ => exact setPath_object_agreeApart below known

/-- A written path resolves to what was written, under the flags of the slot.  If no opaque schema
is on the way, every path that neither begins it nor goes on from it resolves as before. -/
theorem setPath_lens (root value : Schema) (slot : Slot) (filled : names ≠ []) :
    (∃ depth, ∀ options : ResolveOptions, depth ≤ options.maxDepth → ∃ resolved,
      (FieldPath.ofNames names).resolve (setPath value slot names root) options = .ok resolved ∧
        resolved.node = value ∧ resolved.arrival.optional = slot.optional ∧
        resolved.arrival.nullable = slot.nullable) ∧
    ((∀ node ∈ root.way names, node ≠ unknown) →
      ∀ others, ¬ names <+: others → ¬ others <+: names → ∀ options resolved,
        (FieldPath.ofNames others).resolve (setPath value slot names root) options = .ok resolved ↔
          (FieldPath.ofNames others).resolve root options = .ok resolved) := by
  constructor
  · obtain ⟨across, moves, found⟩ := locate_setPath value slot filled root
    refine ⟨moves, fun options within => ?_⟩
    exact ⟨_, (FieldPath.resolve_names_iff filled).mpr ⟨_, found, within, rfl⟩, rfl, rfl, rfl⟩
  · intro known others former latter options resolved
    exact FieldPath.resolve_congr (setPath_agreeApart known) ⟨former, latter⟩

def purchases : Schema :=
  .object ⟨[⟨"orders", .array (.object ⟨[⟨"lines", .object (.openTo (.object .empty)), true, false⟩,
    ⟨"total", .number, false, true⟩], none⟩), false, false⟩], none⟩

theorem setPath_lens_purchases :
    (∃ depth resolved, (FieldPath.ofNames ["orders", "lines", "first", "sku"]).resolve
      (setPath .string ⟨true, false⟩ ["orders", "lines", "first", "sku"] purchases)
      ⟨false, false, depth⟩ = .ok resolved ∧
        resolved.node = .string ∧ resolved.arrival.optional = true) ∧
    ∃ resolved, (FieldPath.ofNames ["orders", "total"]).resolve
      (setPath .string ⟨true, false⟩ ["orders", "lines", "first", "sku"] purchases) {} =
        .ok resolved ∧ resolved.node = .number ∧ resolved.arrival.nullable = true := by
  have filled : ["orders", "lines", "first", "sku"] ≠ [] := List.cons_ne_nil _ _
  have known : ∀ node ∈ purchases.way ["orders", "lines", "first", "sku"], node ≠ unknown := by
    have objects : ∀ node ∈ purchases.way ["orders", "lines", "first", "sku"],
      node.isObject = true := by decide
    rintro node member rfl
    have object := objects unknown member
    contradiction
  have before : (FieldPath.ofNames ["orders", "total"]).resolve purchases {} =
      .ok ⟨.ofNames ["orders", "total"], ⟨.number, true, true, false, true⟩, false⟩ := rfl
  obtain ⟨⟨depth, written⟩, kept⟩ := setPath_lens purchases .string ⟨true, false⟩ filled
  obtain ⟨resolved, resolves, node, optional, _⟩ :=
    written ⟨false, false, depth⟩ (Nat.le_refl depth)
  have after := (kept known ["orders", "total"] (by decide) (by decide) {} _).mpr before
  exact ⟨⟨depth, resolved, resolves, node, optional⟩, _, after, rfl, rfl⟩

end Schema

end DocTyping
