import DocTyping.Proofs.Checked
import DocTyping.Proofs.Schema.NamesFit
import DocTyping.Schema.Loading

namespace DocTyping

/-!
# Described schemas load again

Loading checks the names in a description and keeps everything else.  Every
description states some schema, so a loaded schema is the one that was described and
declares only names without a flaw.
-/

def Flawless (names : List String) : Prop := ∀ name ∈ names, NameFlaw.of? name = none

theorem flawless_nameRule : NameRule Flawless := forall_nameRule id

namespace Description

variable {location name : String} {description : Description}

theorem checkName_eq_ok {result : Unit} :
    checkName location name = .ok result ↔ NameFlaw.of? name = none := by
  unfold checkName
  cases NameFlaw.of? name with
  | none => simp
  | some flaw => simp

mutual

theorem exists_describe : ∀ description, ∃ schema : Schema, schema.describe = description
  | .scalar kind => ⟨.scalar kind, rfl⟩
  | .array items => by
      obtain ⟨element, rfl⟩ := exists_describe items
      exact ⟨.array element, rfl⟩
  | .object ⟨fields, additional⟩ => by
      obtain ⟨declared, rfl⟩ := exists_describeFields fields
      obtain ⟨admitted, rfl⟩ := exists_describeAdditional additional
      exact ⟨.object ⟨declared, admitted⟩, rfl⟩

theorem exists_describeFields :
    ∀ fields, ∃ declared : List (Field Schema), Schema.describeFields declared = fields
  | [] => ⟨[], rfl⟩
  | ⟨name, node, optional, nullable⟩ :: rest => by
      obtain ⟨schema, rfl⟩ := exists_describe node
      obtain ⟨declared, rfl⟩ := exists_describeFields rest
      exact ⟨⟨name, schema, optional, nullable⟩ :: declared, rfl⟩

theorem exists_describeAdditional :
    ∀ additional, ∃ admitted : Option Schema, Schema.describeAdditional admitted = additional
  | none => ⟨none, rfl⟩
  | some node => by
      obtain ⟨schema, rfl⟩ := exists_describe node
      exact ⟨some schema, rfl⟩

end

/-- What the description of a schema loads to, if no name in the schema has a flaw. -/
def Reloads (schema : Schema) : Prop :=
  ∀ location loaded, load location schema.describe = .ok loaded ↔
    schema.NamesFit Flawless ∧ loaded = schema

theorem loadField_describe {field : Field Schema} {loaded : Field Schema}
    (inside : Reloads field.node) :
    loadField location (Schema.describeField field) = .ok loaded ↔
      (NameFlaw.of? field.name = none ∧ field.node.NamesFit Flawless) ∧ loaded = field := by
  obtain ⟨name, node, optional, nullable⟩ := field
  simp only [Schema.describeField, loadField, bind_eq_ok, pure_eq_ok, checkName_eq_ok, inside _ _]
  constructor
  · rintro ⟨_, named, _, ⟨fit, rfl⟩, rfl⟩
    exact ⟨⟨named, fit⟩, rfl⟩
  · rintro ⟨⟨named, fit⟩, rfl⟩
    exact ⟨(), named, _, ⟨fit, rfl⟩, rfl⟩

theorem loadFields_describe {fields loaded : List (Field Schema)}
    (each : ∀ field ∈ fields, Reloads field.node) :
    loadFields location (Schema.describeFields fields) = .ok loaded ↔
      (∀ field ∈ fields, NameFlaw.of? field.name = none ∧ field.node.NamesFit Flawless) ∧
        loaded = fields := by
  induction fields generalizing loaded with
  | nil => simp [Schema.describeFields, loadFields, eq_comm]
  | cons field rest ih =>
      obtain ⟨first, later⟩ := List.forall_mem_cons.mp each
      simp only [Schema.describeFields, loadFields, bind_eq_ok, pure_eq_ok,
        loadField_describe first, ih later, List.forall_mem_cons]
      constructor
      · rintro ⟨_, ⟨head, rfl⟩, _, ⟨tail, rfl⟩, rfl⟩
        exact ⟨⟨head, tail⟩, rfl⟩
      · rintro ⟨⟨head, tail⟩, rfl⟩
        exact ⟨_, ⟨head, rfl⟩, _, ⟨tail, rfl⟩, rfl⟩

theorem loadAdditional_describe {additional loaded : Option Schema}
    (inside : ∀ node, additional = some node → Reloads node) :
    loadAdditional location (Schema.describeAdditional additional) = .ok loaded ↔
      (∀ node, additional = some node → node.NamesFit Flawless) ∧ loaded = additional := by
  cases additional with
  | none => simp [Schema.describeAdditional, loadAdditional, eq_comm]
  | some node =>
      simp only [Schema.describeAdditional, loadAdditional, bind_eq_ok, pure_eq_ok,
        inside node rfl _ _, Option.some.injEq, forall_eq']
      constructor
      · rintro ⟨_, ⟨fit, rfl⟩, rfl⟩
        exact ⟨fit, rfl⟩
      · rintro ⟨fit, rfl⟩
        exact ⟨_, ⟨fit, rfl⟩, rfl⟩

theorem load_describe (schema : Schema) : Reloads schema := by
  induction schema using Schema.partsInduction with
  | scalar kind =>
      intro location loaded
      simp [Schema.describe, load, Schema.NamesFit.scalar, eq_comm]
  | array element ih =>
      intro location loaded
      simp only [Schema.describe, load, bind_eq_ok, pure_eq_ok, ih _ _, Schema.namesFit_array_iff]
      constructor
      · rintro ⟨_, ⟨fit, rfl⟩, rfl⟩
        exact ⟨fit, rfl⟩
      · rintro ⟨fit, rfl⟩
        exact ⟨_, ⟨fit, rfl⟩, rfl⟩
  | object shape each open_ =>
      obtain ⟨fields, additional⟩ := shape
      intro location loaded
      have named : Flawless (Shape.names ⟨fields, additional⟩) ↔
          ∀ field ∈ fields, NameFlaw.of? field.name = none := List.forall_mem_map
      simp only [Schema.describe, Schema.describeShape, load, loadShape, bind_eq_ok, pure_eq_ok,
        loadFields_describe each, loadAdditional_describe open_, Schema.namesFit_object_iff, named]
      constructor
      · rintro ⟨_, ⟨_, ⟨stated, rfl⟩, _, ⟨admitted, rfl⟩, rfl⟩, rfl⟩
        exact ⟨⟨fun field member => (stated field member).1,
          fun field member => (stated field member).2, admitted⟩, rfl⟩
      · rintro ⟨⟨flawless, fit, admitted⟩, rfl⟩
        exact ⟨_, ⟨_, ⟨fun field member => ⟨flawless field member, fit field member⟩, rfl⟩, _,
          ⟨admitted, rfl⟩, rfl⟩, rfl⟩

theorem describe_of_load {schema : Schema} (loaded : load location description = .ok schema) :
    schema.NamesFit Flawless ∧ schema.describe = description := by
  obtain ⟨stated, rfl⟩ := exists_describe description
  obtain ⟨flawless, rfl⟩ := (load_describe stated location schema).mp loaded
  exact ⟨flawless, rfl⟩

end Description

namespace Schema

variable {schema : Schema} {source : String}

theorem describeField_eq (field : Field Schema) :
    describeField field = ⟨field.name, field.node.describe, field.optional, field.nullable⟩ := by
  cases field; rfl

theorem describeFields_eq_map (fields : List (Field Schema)) :
    describeFields fields = fields.map describeField := by
  induction fields with
  | nil => rfl
  | cons field rest ih => rw [describeFields, ih, List.map_cons]

theorem names_describeFields (fields : List (Field Schema)) :
    (describeFields fields).map Field.name = fields.map Field.name := by
  simp [describeFields_eq_map, describeField_eq, Function.comp_def]

theorem describe_object (shape : Shape Schema) :
    (object shape).describe =
      .object ⟨describeFields shape.fields, shape.additional.map describe⟩ := by
  obtain ⟨fields, additional⟩ := shape
  cases additional <;> rfl

theorem isObject_describe : schema.describe.isObject = schema.isObject := by
  cases schema <;> rfl

theorem ofDescription_eq_ok {description : Description} :
    ofDescription source description = .ok schema ↔
      description.isObject = true ∧ description.load "" = .ok schema := by
  unfold ofDescription
  split
  · rename_i object
    cases description.load "" with
    | error flaw => simp
    | ok loaded => simp [object]
  · rename_i other
    simp [other]

/-- A loader obtained a schema from some description. -/
def IsLoaded (schema : Schema) : Prop :=
  ∃ source description, ofDescription source description = .ok schema

theorem namesFit_flawless_iff :
    schema.NamesFit Flawless ↔ ∀ name, schema.Declares name → NameFlaw.of? name = none :=
  namesFit_forall_iff

theorem isObject_of_load {description : Description} {location : String}
    (object : description.isObject = true) (loaded : description.load location = .ok schema) :
    schema.isObject = true := by
  obtain ⟨_, rfl⟩ := Description.describe_of_load loaded
  rwa [isObject_describe] at object

theorem IsLoaded.isObject (loaded : schema.IsLoaded) : schema.isObject = true := by
  obtain ⟨source, description, stated⟩ := loaded
  obtain ⟨object, loads⟩ := ofDescription_eq_ok.mp stated
  exact isObject_of_load object loads

theorem IsLoaded.flawless (loaded : schema.IsLoaded) : schema.NamesFit Flawless := by
  obtain ⟨source, description, stated⟩ := loaded
  exact (Description.describe_of_load (ofDescription_eq_ok.mp stated).2).1

/-- The description of an object is accepted exactly if no name in it has a flaw, and then it loads
to that object. -/
theorem ofDescription_describe {loaded : Schema} (object : schema.isObject = true) :
    ofDescription source schema.describe = .ok loaded ↔
      (∀ name, schema.Declares name → NameFlaw.of? name = none) ∧ loaded = schema := by
  rw [ofDescription_eq_ok, isObject_describe, Description.load_describe schema "" loaded,
    namesFit_flawless_iff]
  simp only [object, true_and]

end Schema

end DocTyping
