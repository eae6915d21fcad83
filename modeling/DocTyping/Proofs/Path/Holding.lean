import DocTyping.Proofs.Path.Writing
import DocTyping.Proofs.Schema.Equality
import DocTyping.Proofs.Schema.Removal

namespace DocTyping

/-!
# Held paths

A removal finds its field if its path follows declared fields to the end.  Writes and
removals at other paths keep such a field, as long as the paths are apart.
-/

theorem Apart.symm {names others : List String} (apart : Apart names others) :
    Apart others names :=
  ⟨apart.2, apart.1⟩

namespace Shape

variable {α : Type} {shape : Shape α} {fields : List (Field α)} {field : Field α}
  {name key : String} {change : α → Option α} {within : α → α}

theorem alterField_putField_of_ne (different : field.name ≠ key) :
    alterField key change (putField fields field) =
      putField (alterField key change fields) field := by
  induction fields with
  | nil => simp [putField, alterField, different]
  | cons first rest ih =>
      by_cases named : first.name = field.name
      · have other : first.name ≠ key := fun same => different (named.symm.trans same)
        simp [putField, alterField, named, different]
      · by_cases keyed : first.name = key
        · cases changed : change first.node with
          | none => simp [putField, alterField, keyed, changed, Ne.symm different]
          | some node => simp [putField, alterField, keyed, changed, Ne.symm different]
        · simp [putField, alterField, named, keyed, ih]

theorem alter_put_of_ne (different : field.name ≠ key) :
    (shape.put field).alter key change = (shape.alter key change).put field := by
  simp only [put, alter, alterField_putField_of_ne different]

/-- A change after a write is a change of what is written. -/
theorem alter_put_self : (shape.put field).alter field.name (some ∘ within) =
    shape.put { field with node := within field.node } := by
  obtain ⟨fields, additional⟩ := shape
  simp only [put, alter, mk.injEq, and_true]
  induction fields with
  | nil => simp [putField, alterField]
  | cons first rest ih =>
      by_cases named : first.name = field.name
      · simp [putField, alterField, named]
      · simp [putField, alterField, named, ih]

/-- A write replaces what was changed before. -/
theorem put_alter_self : (shape.alter field.name (some ∘ within)).put field = shape.put field := by
  obtain ⟨fields, additional⟩ := shape
  simp only [put, alter, mk.injEq, and_true]
  induction fields with
  | nil => simp [putField, alterField]
  | cons first rest ih =>
      by_cases named : first.name = field.name
      · simp [putField, alterField, named]
      · simp [putField, alterField, named, ih]

theorem alter_of_undeclared (undeclared : shape.find? name = none) :
    shape.alter name change = shape := by
  have absent : name ∉ shape.fields.map Field.name := find?_eq_none_iff.mp undeclared
  simp only [alter, alterField_of_absent absent]

theorem alter_of_unchanged (declared : shape.find? name = some field)
    (same : within field.node = field.node) : shape.alter name (some ∘ within) = shape := by
  obtain ⟨fields, additional⟩ := shape
  simp only [find?] at declared
  simp only [alter, mk.injEq, and_true]
  induction fields with
  | nil => contradiction
  | cons first rest ih =>
      by_cases named : first.name = name
      · have here : first = field := by simpa [named] using declared
        rw [alterField, if_pos named, Function.comp_apply, here, same]
      · have later : rest.find? (fun field => field.name == name) = some field := by
          simpa [named] using declared
        rw [alterField, if_neg named, ih later]

end Shape

namespace Schema

variable {schema value : Schema} {shape other : Shape Schema} {slot : Slot} {name key : String}
  {names removed rest : List String}

theorem writtenField_congr (found : shape.find? name = other.find? name)
    (additional : shape.additional = other.additional) :
    writtenField value slot name rest shape = writtenField value slot name rest other := by
  simp [writtenField, Shape.child?, Shape.declared?, Shape.isOptional, found, additional]

theorem find?_written : (shape.put (writtenField value slot name rest shape)).find? name =
    some (writtenField value slot name rest shape) := by
  rw [Shape.find?_put]
  exact if_pos rfl

theorem find?_written_of_ne (different : name ≠ key) :
    (shape.put (writtenField value slot name rest shape)).find? key = shape.find? key := by
  rw [Shape.find?_put]
  exact if_neg different

theorem child?_of_declared {field : Field Schema} (declared : shape.find? name = some field) :
    shape.child? name = some field.node :=
  Shape.child?_of_under? (Shape.under?_of_find? declared)

theorem child?_of_admitted (undeclared : shape.find? name = none) :
    shape.child? name = shape.additional := by
  simp [Shape.child?, Shape.declared?, undeclared]

theorem node_writtenField {child : Schema} (entered : shape.child? name = some child) :
    (writtenField value slot name rest shape).node = setPath value slot rest child := by
  rw [writtenField, entered, Option.getD_some]

/-- A path follows declared fields to its end. -/
inductive Holds : List String → Schema → Prop
  | element {names : List String} {element : Schema} (inside : Holds names element) :
      Holds names (array element)
  | last {name : String} {shape : Shape Schema} {field : Field Schema}
      (declared : shape.find? name = some field) : Holds [name] (object shape)
  | onward {name : String} {rest : List String} {shape : Shape Schema} {field : Field Schema}
      (declared : shape.find? name = some field) (inside : Holds rest field.node) :
      Holds (name :: rest) (object shape)

theorem holds_array_iff {element : Schema} : Holds names (array element) ↔ Holds names element :=
  ⟨fun | .element inside => inside, .element⟩

theorem holds_object_iff : Holds (name :: rest) (object shape) ↔
    ∃ field, shape.find? name = some field ∧ (rest = [] ∨ Holds rest field.node) := by
  constructor
  · intro held
    cases held with
    | last declared => exact ⟨_, declared, .inl rfl⟩
    | onward declared inside => exact ⟨_, declared, .inr inside⟩
  · rintro ⟨field, declared, rfl | inside⟩
    · exact .last declared
    · exact .onward declared inside

theorem not_holds_empty : ¬ Holds names (object .empty) := by
  intro held
  cases held with
  | last declared => contradiction
  | onward declared _ => contradiction

theorem removePath_of_not_holds (filled : names ≠ []) (free : ¬ Holds names schema) :
    removePath names schema = schema := by
  induction names generalizing schema with
  | nil => contradiction
  | cons name rest ih =>
      induction schema using partsInduction with
      | scalar kind => exact removePath_scalar kind
      | array element inside =>
          rw [removePath_array, inside fun held => free (.element held)]
      | object shape _ _ =>
          rw [removePath_object]
          cases declared : shape.find? name with
          | none => rw [Shape.alter_of_undeclared declared]
          | some field =>
              cases rest with
              | nil => exact absurd (.last declared) free
              | cons next later =>
                  have same : removePath (next :: later) field.node = field.node :=
                    ih (List.cons_ne_nil _ _) fun held => free (.onward declared held)
                  rw [removeBelow_of_ne_nil (List.cons_ne_nil _ _),
                    Shape.alter_of_unchanged declared same]

theorem Holds.removePath (held : Holds removed schema) (apart : Apart names removed) :
    Holds removed (removePath names schema) := by
  induction names generalizing removed schema with
  | nil => exact held
  | cons key back ih =>
      obtain ⟨name, rest, rfl⟩ := List.exists_cons_of_ne_nil apart.ne_nil
      induction schema using partsInduction with
      | scalar kind => rwa [removePath_scalar]
      | array element inside =>
          rw [removePath_array]
          exact .element (inside (holds_array_iff.mp held))
      | object shape _ _ =>
          obtain ⟨field, declared, inside⟩ := holds_object_iff.mp held
          rw [removePath_object, holds_object_iff]
          by_cases same : key = name
          · subst same
            have inner := apart_cons_iff.mp apart rfl
            rw [removeBelow_of_ne_nil inner.symm.ne_nil, Shape.find?_alter_some, declared]
            exact ⟨_, rfl, inside.imp_right fun below => ih below inner⟩
          · rw [Shape.find?_alter_of_ne (Ne.symm same)]
            exact ⟨field, declared, inside⟩

theorem not_holds_removePath (distinct : schema.NamesDistinct) (filled : names ≠ []) :
    ¬ Holds names (removePath names schema) := by
  induction names generalizing schema with
  | nil => contradiction
  | cons name rest ih =>
      induction distinct with
      | scalar kind =>
          rw [removePath_scalar]
          intro held
          cases held
      | array _ inside =>
          rw [removePath_array, holds_array_iff]
          exact inside
      | @object shape distinct fields _ _ _ =>
          rw [removePath_object, holds_object_iff]
          rintro ⟨field, declared, inside⟩
          cases rest with
          | nil =>
              have gone : (shape.alter name (removeBelow [])).find? name = none :=
                Shape.find?_alter_none distinct
              rw [gone] at declared
              contradiction
          | cons next later =>
              rw [removeBelow_of_ne_nil (List.cons_ne_nil _ _), Shape.find?_alter_some] at declared
              obtain ⟨before, found, rfl⟩ := Option.map_eq_some_iff.mp declared
              have below := inside.resolve_left (List.cons_ne_nil _ _)
              exact ih (fields before (Shape.mem_of_find? found)) (List.cons_ne_nil _ _) below

theorem Holds.setPath (held : Holds removed schema) (apart : Apart names removed) :
    Holds removed (setPath value slot names schema) := by
  obtain ⟨key, back, rfl⟩ := List.exists_cons_of_ne_nil apart.symm.ne_nil
  induction held generalizing key back with
  | element _ ih =>
      rw [setPath_array]
      exact .element (ih key back apart)
  | @last name shape field declared =>
      rw [setPath_object]
      by_cases same : key = name
      · subst same
        exact absurd (apart_cons_iff.mp apart rfl).ne_nil (by simp)
      · exact .last ((find?_written_of_ne same).trans declared)
  | @onward name rest shape field declared _ ih =>
      rw [setPath_object]
      by_cases same : key = name
      · subst same
        have inner := apart_cons_iff.mp apart rfl
        obtain ⟨next, later, rfl⟩ := List.exists_cons_of_ne_nil inner.symm.ne_nil
        refine .onward find?_written ?_
        rw [node_writtenField (child?_of_declared declared)]
        exact ih next later inner
      · exact .onward ((find?_written_of_ne same).trans declared) ‹_›

end Schema

end DocTyping
