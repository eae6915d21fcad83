import DocTyping.Proofs.Schema.Reshaping

namespace DocTyping

/-!
# Removal

Removing at a path changes one field in each object on the way: it removes the field of
the last name, and keeps every other field with its flags.  Removals commute, and a
repeated one changes nothing more.  So what several removals leave depends only on
which paths are among them.
-/

namespace Shape

variable {α : Type} {shape : Shape α} {fields : List (Field α)} {name key : String}
  {change onward : α → Option α} {within : α → α}

/-- Changes the type of the first field of a name, or removes the field. -/
def alterField (name : String) (change : α → Option α) : List (Field α) → List (Field α)
  | [] => []
  | field :: rest =>
    if field.name = name then
      match change field.node with
      | some node => { field with node } :: rest
      | none => rest
    else field :: alterField name change rest

def alter (shape : Shape α) (name : String) (change : α → Option α) : Shape α :=
  { shape with fields := alterField name change shape.fields }

theorem alterField_of_absent (absent : name ∉ fields.map Field.name) :
    alterField name change fields = fields := by
  induction fields with
  | nil => rfl
  | cons field rest ih =>
      simp only [List.map_cons, List.mem_cons, not_or] at absent
      obtain ⟨different, later⟩ := absent
      rw [alterField, if_neg (Ne.symm different), ih later]

theorem alterField_comm (different : name ≠ key) :
    alterField key onward (alterField name change fields) =
      alterField name change (alterField key onward fields) := by
  induction fields with
  | nil => rfl
  | cons field rest ih =>
      by_cases named : field.name = name
      · have other : field.name ≠ key := fun same => different (named.symm.trans same)
        cases changed : change field.node with
        | none => simp [alterField, named, different, changed]
        | some node => simp [alterField, named, different, changed]
      · by_cases keyed : field.name = key
        · cases changed : onward field.node with
          | none => simp [alterField, keyed, different.symm, changed]
          | some node => simp [alterField, keyed, different.symm, changed]
        · simp [alterField, named, keyed, ih]

theorem alterField_alterField (distinct : (fields.map Field.name).Nodup) :
    alterField name onward (alterField name change fields) =
      alterField name (fun node => (change node).bind onward) fields := by
  induction fields with
  | nil => rfl
  | cons field rest ih =>
      obtain ⟨new, later⟩ := List.nodup_cons.mp distinct
      by_cases named : field.name = name
      · cases changed : change field.node with
        | none =>
            rw [named] at new
            simp [alterField, named, changed, alterField_of_absent new]
        | some node => simp [alterField, named, changed]
      · simp [alterField, named, ih later]

theorem alterField_congr (same : ∀ field ∈ fields, change field.node = onward field.node) :
    alterField name change fields = alterField name onward fields := by
  induction fields with
  | nil => rfl
  | cons field rest ih =>
      obtain ⟨first, later⟩ := List.forall_mem_cons.mp same
      simp only [alterField, first, ih later]

theorem find?_alter_of_ne (different : key ≠ name) :
    (shape.alter name change).find? key = shape.find? key := by
  obtain ⟨fields, additional⟩ := shape
  simp only [alter, find?]
  induction fields with
  | nil => rfl
  | cons field rest ih =>
      by_cases named : field.name = name
      · have other : name ≠ key := Ne.symm different
        cases changed : change field.node with
        | none => simp [alterField, named, changed, other]
        | some node => simp [alterField, named, changed, other]
      · simp [alterField, named, List.find?_cons, ih]

theorem find?_alter_some :
    (shape.alter name (some ∘ within)).find? name =
      (shape.find? name).map fun field => { field with node := within field.node } := by
  obtain ⟨fields, additional⟩ := shape
  simp only [alter, find?]
  induction fields with
  | nil => rfl
  | cons field rest ih =>
      by_cases named : field.name = name
      · simp [alterField, named]
      · simp [alterField, named, ih]

theorem find?_alter_none (distinct : shape.names.Nodup) :
    (shape.alter name fun _ => none).find? name = none := by
  obtain ⟨fields, additional⟩ := shape
  simp only [names] at distinct
  simp only [alter, find?]
  induction fields with
  | nil => rfl
  | cons field rest ih =>
      obtain ⟨new, later⟩ := List.nodup_cons.mp distinct
      by_cases named : field.name = name
      · rw [named] at new
        rw [alterField, if_pos named, List.find?_eq_none]
        intro other member same
        exact new (List.mem_map.mpr ⟨other, member, by simpa using same⟩)
      · simpa [alterField, named] using ih later

theorem remove_eq_alter : shape.remove name = shape.alter name fun _ => none := by
  obtain ⟨fields, additional⟩ := shape
  simp only [remove, alter, mk.injEq, and_true]
  induction fields with
  | nil => rfl
  | cons field rest ih =>
      by_cases named : field.name = name
      · simp [alterField, named]
      · simp [alterField, named, ih]

/-- Writing a declared field with another type changes its type. -/
theorem put_eq_alter {field : Field α} (declared : shape.find? name = some field) :
    shape.put { field with node := within field.node } = shape.alter name (some ∘ within) := by
  obtain ⟨fields, additional⟩ := shape
  simp only [find?] at declared
  simp only [put, alter, mk.injEq, and_true]
  induction fields with
  | nil => contradiction
  | cons first rest ih =>
      by_cases named : first.name = name
      · have same : first = field := by simpa [named] using declared
        simp [putField, alterField, ← same, named]
      · have later : rest.find? (fun field => field.name == name) = some field := by
          simpa [named] using declared
        have held : field.name = name := by simpa using List.find?_some later
        subst held
        simp only [putField, alterField, named, if_false]
        exact congrArg (first :: ·) (ih later)

end Shape

namespace Schema

variable {schema element : Schema} {shape : Shape Schema} {name : String}
  {names others rest back : List String}

/-- What the removal at the rest of a path leaves of the field that it starts from. -/
def removeBelow : List String → Schema → Option Schema
  | [], _ => none
  | name :: rest, field => some (removePath (name :: rest) field)

theorem removeBelow_of_ne_nil (filled : names ≠ []) :
    removeBelow names = some ∘ removePath names := by
  cases names with
  | nil => contradiction
  | cons name rest => rfl

theorem removePath_array :
    removePath (name :: rest) (array element) = array (removePath (name :: rest) element) := by
  cases rest <;> rfl

theorem removePath_scalar (kind : ScalarKind) :
    removePath (name :: rest) (scalar kind) = scalar kind := by
  cases rest <;> rfl

theorem removePath_object :
    removePath (name :: rest) (object shape) = object (shape.alter name (removeBelow rest)) := by
  cases rest with
  | nil => exact congrArg object Shape.remove_eq_alter
  | cons next later =>
      have within : removeBelow (next :: later) = some ∘ removePath (next :: later) := rfl
      simp only [removePath, underArrays, within]
      cases declared : shape.find? name with
      | some field => exact congrArg object (Shape.put_eq_alter declared)
      | none =>
          have absent : name ∉ shape.fields.map Field.name := by
            simpa [Shape.find?] using declared
          simp only [Shape.alter, Shape.alterField_of_absent absent]

/-- Removing twice under a name goes on with what the first removal leaves of its field. -/
theorem removePath_twice (distinct : shape.names.Nodup) :
    removePath (name :: back) (removePath (name :: rest) (object shape)) =
      object (shape.alter name fun field => (removeBelow rest field).bind (removeBelow back)) := by
  rw [removePath_object, removePath_object]
  simp only [Shape.alter, Shape.alterField_alterField distinct]

theorem removePath_comm (distinct : schema.NamesDistinct) (names others : List String) :
    removePath others (removePath names schema) = removePath names (removePath others schema) := by
  induction names generalizing others schema with
  | nil => rfl
  | cons name rest ih =>
      cases others with
      | nil => rfl
      | cons key back =>
          induction distinct with
          | scalar kind => simp only [removePath_scalar]
          | array _ inside => simp only [removePath_array, inside]
          | @object shape distinct fields _ _ _ =>
              by_cases same : name = key
              · subst same
                rw [removePath_twice distinct, removePath_twice distinct, Shape.alter, Shape.alter,
                  Shape.alterField_congr]
                intro field member
                -- Only two removals that go on below the field leave anything of it.
                cases rest with
                | nil => cases back <;> rfl
                | cons next later =>
                    cases back with
                    | nil => rfl
                    | cons other further =>
                        exact congrArg some (ih (fields field member) (other :: further))
              · simp only [removePath_object, Shape.alter, Shape.alterField_comm same]

theorem removePath_again (distinct : schema.NamesDistinct) (names : List String) :
    removePath names (removePath names schema) = removePath names schema := by
  induction names generalizing schema with
  | nil => rfl
  | cons name rest ih =>
      induction distinct with
      | scalar kind => simp only [removePath_scalar]
      | array _ inside => simp only [removePath_array, inside]
      | @object shape distinct fields _ _ _ =>
          rw [removePath_twice distinct, removePath_object, Shape.alter, Shape.alter,
            Shape.alterField_congr]
          intro field member
          cases rest with
          | nil => rfl
          | cons next later => exact congrArg some (ih (fields field member))

theorem NamesDistinct.removePath (distinct : schema.NamesDistinct) :
    (schema.removePath names).NamesDistinct :=
  namesFit_nodup_iff.mp (removePath_namesFit nodup_nameRule (namesFit_nodup_iff.mpr distinct))

/-! ### Several removals -/

def removeEach (paths : List (List String)) (schema : Schema) : Schema :=
  paths.foldl (fun left names => removePath names left) schema

variable {paths first second : List (List String)}

@[simp] theorem removeEach_cons :
    removeEach (names :: paths) schema = removeEach paths (removePath names schema) := rfl

theorem NamesDistinct.removeEach (distinct : schema.NamesDistinct) :
    (schema.removeEach paths).NamesDistinct := by
  induction paths generalizing schema with
  | nil => exact distinct
  | cons names rest ih => exact ih distinct.removePath

theorem removeEach_removePath (distinct : schema.NamesDistinct) :
    removeEach paths (removePath names schema) = removePath names (removeEach paths schema) := by
  induction paths generalizing schema with
  | nil => rfl
  | cons path rest ih =>
      rw [removeEach_cons, removePath_comm distinct, ih distinct.removePath, removeEach_cons]

theorem removeEach_comm (distinct : schema.NamesDistinct) :
    removeEach second (removeEach first schema) = removeEach first (removeEach second schema) := by
  induction first generalizing schema with
  | nil => rfl
  | cons path rest ih =>
      rw [removeEach_cons, removeEach_cons, ih distinct.removePath, removeEach_removePath distinct]

theorem removeEach_of_mem (distinct : schema.NamesDistinct) (member : names ∈ paths) :
    removeEach paths (removePath names schema) = removeEach paths schema := by
  induction paths generalizing schema with
  | nil => contradiction
  | cons path rest ih =>
      rcases List.mem_cons.mp member with rfl | later
      · rw [removeEach_cons, removePath_again distinct, removeEach_cons]
      · rw [removeEach_cons, removePath_comm distinct, ih distinct.removePath later,
          removeEach_cons]

theorem removeEach_of_subset (distinct : schema.NamesDistinct) (subset : first ⊆ second) :
    removeEach second (removeEach first schema) = removeEach second schema := by
  induction first generalizing schema with
  | nil => rfl
  | cons path rest ih =>
      obtain ⟨member, later⟩ := List.cons_subset.mp subset
      rw [removeEach_cons, ih distinct.removePath later, removeEach_of_mem distinct member]

/-- The order of removals and their repetition change nothing. -/
theorem removeEach_congr (distinct : schema.NamesDistinct)
    (same : ∀ names, names ∈ first ↔ names ∈ second) :
    removeEach first schema = removeEach second schema := by
  have former : first ⊆ second := fun names => (same names).mp
  have latter : second ⊆ first := fun names => (same names).mpr
  rw [← removeEach_of_subset distinct former, removeEach_comm distinct,
    removeEach_of_subset distinct latter]

end Schema

end DocTyping
