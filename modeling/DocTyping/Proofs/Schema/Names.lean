import DocTyping.Schema.Basic

namespace DocTyping

/-!
# Declared names

An object declares each name once.  This holds at every depth of a schema, and
then a declared field is found under its name.
-/

namespace Shape

variable {α : Type} {shape : Shape α} {field : Field α} {name : String}

theorem find?_of_mem (distinct : shape.names.Nodup) (member : field ∈ shape.fields) :
    shape.find? field.name = some field := by
  obtain ⟨fields, additional⟩ := shape
  simp only [names] at distinct
  simp only [find?]
  induction fields with
  | nil => simp at member
  | cons first rest ih =>
      simp only [List.map_cons, List.nodup_cons] at distinct
      rcases List.mem_cons.mp member with rfl | later
      · simp
      · have different : first.name ≠ field.name := by
          intro same
          exact distinct.1 (same ▸ List.mem_map_of_mem later)
        rw [List.find?_cons_of_neg (by simpa using different)]
        exact ih distinct.2 later

theorem child?_of_mem (distinct : shape.names.Nodup) (member : field ∈ shape.fields) :
    shape.child? field.name = some field.node := by
  simp [child?, declared?, find?_of_mem distinct member]

/-- The type of a key is that of a declared field, or that of undeclared keys. -/
theorem child?_eq_some {child : α} (found : shape.child? name = some child) :
    (∃ field ∈ shape.fields, field.name = name ∧ field.node = child) ∨
      shape.additional = some child := by
  simp only [child?, declared?] at found
  cases declared : shape.find? name with
  | none => exact .inr (by simpa [declared] using found)
  | some field =>
      simp only [declared, Option.map_some, Option.some.injEq] at found
      have named : field.name = name := by simpa using List.find?_some declared
      exact .inl ⟨field, List.mem_of_find?_eq_some declared, named, found⟩

theorem child?_of_undeclared (undeclared : shape.declares name = false) :
    shape.child? name = shape.additional := by
  have absent : shape.find? name = none := by simpa [declares] using undeclared
  simp [child?, declared?, absent]

theorem names_putField (fields : List (Field α)) (field : Field α) :
    (putField fields field).map Field.name =
      if field.name ∈ fields.map Field.name then fields.map Field.name
      else fields.map Field.name ++ [field.name] := by
  induction fields with
  | nil => rfl
  | cons first rest ih =>
      simp only [putField]
      split
      · rename_i same
        simp [same]
      · rename_i different
        simp only [List.map_cons, ih, List.mem_cons, Ne.symm different, false_or]
        split <;> rfl

theorem find?_putField (fields : List (Field α)) (added : Field α) :
    (putField fields added).find? (fun field => field.name == name) =
      if added.name = name then some added else fields.find? fun field => field.name == name := by
  induction fields with
  | nil =>
      by_cases named : added.name = name <;> simp [putField, named]
  | cons field rest ih =>
      by_cases held : field.name = added.name
      · by_cases named : added.name = name <;> simp [putField, held, named]
      · by_cases named : added.name = name
        · have different : field.name ≠ name := fun same => held (same.trans named.symm)
          simp [putField, ih, named, different]
        · simp [putField, held, ih, named, List.find?_cons]

theorem find?_put (shape : Shape α) (added : Field α) (name : String) :
    (shape.put added).find? name = if added.name = name then some added else shape.find? name :=
  find?_putField shape.fields added

theorem putField_putField {fields : List (Field α)} {first second : Field α}
    (same : first.name = second.name) :
    putField (putField fields first) second = putField fields second := by
  induction fields with
  | nil => simp [putField, same]
  | cons field rest ih =>
      by_cases named : field.name = second.name
      · simp [putField, same, named]
      · simp [putField, same, named, ih]

theorem put_put {first second : Field α} (same : first.name = second.name) :
    (shape.put first).put second = shape.put second := by
  simp only [put, putField_putField same]

theorem mem_putField {fields : List (Field α)} {added field : Field α}
    (member : field ∈ putField fields added) : field ∈ fields ∨ field = added := by
  induction fields with
  | nil => exact .inr (List.mem_singleton.mp member)
  | cons first rest ih =>
      simp only [putField] at member
      split at member
      · rcases List.mem_cons.mp member with written | later
        · exact .inr written
        · exact .inl (List.mem_cons_of_mem _ later)
      · rcases List.mem_cons.mp member with rfl | later
        · exact .inl List.mem_cons_self
        · exact (ih later).imp_left (List.mem_cons_of_mem _)

theorem mem_foldl_putField {added fields : List (Field α)} {field : Field α}
    (member : field ∈ added.foldl putField fields) : field ∈ fields ∨ field ∈ added := by
  induction added generalizing fields with
  | nil => exact .inl member
  | cons first rest ih =>
      rcases ih member with put | later
      · rcases mem_putField put with held | rfl
        · exact .inl held
        · exact .inr List.mem_cons_self
      · exact .inr (List.mem_cons_of_mem _ later)

end Shape

namespace Schema

/-- No object inside a schema declares a name twice. -/
inductive NamesDistinct : Schema → Prop
  | scalar (kind : ScalarKind) : NamesDistinct (scalar kind)
  | array {element : Schema} (inside : NamesDistinct element) : NamesDistinct (array element)
  | object {shape : Shape Schema} (distinct : shape.names.Nodup)
      (fields : ∀ field ∈ shape.fields, NamesDistinct field.node)
      (additional : ∀ node, shape.additional = some node → NamesDistinct node) :
      NamesDistinct (object shape)

/-- Some object inside a schema declares a name. -/
inductive Declares (name : String) : Schema → Prop
  | here {shape : Shape Schema} (declared : shape.declares name = true) :
      Declares name (object shape)
  | element {element : Schema} (inside : Declares name element) : Declares name (array element)
  | field {shape : Shape Schema} {field : Field Schema} (member : field ∈ shape.fields)
      (inside : Declares name field.node) : Declares name (object shape)
  | additional {shape : Shape Schema} {node : Schema} (admitted : shape.additional = some node)
      (inside : Declares name node) : Declares name (object shape)

variable {name : String} {element : Schema} {shape : Shape Schema}

@[simp] theorem namesDistinct_scalar (kind : ScalarKind) : NamesDistinct (scalar kind) :=
  .scalar kind

@[simp] theorem namesDistinct_array_iff :
    NamesDistinct (array element) ↔ NamesDistinct element :=
  ⟨fun | .array inside => inside, .array⟩

theorem namesDistinct_object_iff :
    NamesDistinct (object shape) ↔
      shape.names.Nodup ∧ (∀ field ∈ shape.fields, NamesDistinct field.node) ∧
        ∀ node, shape.additional = some node → NamesDistinct node :=
  ⟨fun | .object names fields additional => ⟨names, fields, additional⟩,
    fun ⟨names, fields, additional⟩ => .object names fields additional⟩

@[simp] theorem not_declares_scalar (kind : ScalarKind) : ¬ Declares name (scalar kind) :=
  fun declared => nomatch declared

@[simp] theorem declares_array_iff : Declares name (array element) ↔ Declares name element :=
  ⟨fun | .element inside => inside, .element⟩

theorem declares_object_iff :
    Declares name (object shape) ↔
      shape.declares name = true ∨ (∃ field ∈ shape.fields, Declares name field.node) ∨
        ∃ node, shape.additional = some node ∧ Declares name node := by
  constructor
  · intro declared
    cases declared with
    | here declared => exact .inl declared
    | field member inside => exact .inr (.inl ⟨_, member, inside⟩)
    | additional admitted inside => exact .inr (.inr ⟨_, admitted, inside⟩)
  · rintro (declared | ⟨field, member, inside⟩ | ⟨node, admitted, inside⟩)
    · exact .here declared
    · exact .field member inside
    · exact .additional admitted inside

def nested : Nat → Schema → Schema
  | 0, node => node
  | levels + 1, node => array (nested levels node)

theorem nested_array (levels : Nat) (node : Schema) :
    nested levels (array node) = nested (levels + 1) node := by
  induction levels with
  | zero => rfl
  | succ levels ih => exact congrArg array ih

end Schema

end DocTyping
