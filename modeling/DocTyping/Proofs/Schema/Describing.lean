import DocTyping.Proofs.Schema.Reloading

namespace DocTyping

/-!
# Describing undoes loading

A description loads exactly if no name at any depth of it is flawed, and describing
what it loads to gives it back.  An object is loaded by writing its fields in order:
each keeps its place and both its flags, since no name is written twice.
-/

variable {α : Type} {name location source : String}

/-- A name that is not empty, does not start with `$` and has no dot. -/
def IsFieldName (name : String) : Prop :=
  name ≠ "" ∧ name.toList.head? ≠ some '$' ∧ '.' ∉ name.toList

theorem isFieldName_iff : IsFieldName name ↔ NameFlaw.of? name = none := by
  simp only [IsFieldName, NameFlaw.of?_eq_none_iff, ne_eq, String.toList_eq_nil_iff]

namespace Description

/-- Some object of a description has a field of a name. -/
inductive States (name : String) : Description → Prop
  | here {shape : Shape Description} (stated : name ∈ shape.names) : States name (object shape)
  | items {items : Description} (inside : States name items) : States name (array items)
  | field {shape : Shape Description} {field : Field Description} (member : field ∈ shape.fields)
      (inside : States name field.node) : States name (object shape)
  | additional {shape : Shape Description} {node : Description}
      (admitted : shape.additional = some node) (inside : States name node) :
      States name (object shape)

theorem not_states_scalar (kind : ScalarKind) : ¬ States name (scalar kind) :=
  fun stated => nomatch stated

theorem states_array_iff {items : Description} : States name (array items) ↔ States name items :=
  ⟨fun | .items inside => inside, .items⟩

theorem states_object_iff {shape : Shape Description} :
    States name (object shape) ↔
      name ∈ shape.names ∨ (∃ field ∈ shape.fields, States name field.node) ∨
        ∃ node, shape.additional = some node ∧ States name node := by
  constructor
  · intro stated
    cases stated with
    | here stated => exact .inl stated
    | field member inside => exact .inr (.inl ⟨_, member, inside⟩)
    | additional admitted inside => exact .inr (.inr ⟨_, admitted, inside⟩)
  · rintro (stated | ⟨field, member, inside⟩ | ⟨node, admitted, inside⟩)
    · exact .here stated
    · exact .field member inside
    · exact .additional admitted inside

end Description

namespace Schema

theorem states_describe {schema : Schema} :
    schema.describe.States name ↔ schema.Declares name := by
  induction schema using partsInduction with
  | scalar kind => simp [describe, Description.not_states_scalar]
  | array element ih => rw [describe, Description.states_array_iff, ih, declares_array_iff]
  | object shape each open_ =>
      have inside : (∃ field ∈ describeFields shape.fields, field.node.States name) ↔
          ∃ field ∈ shape.fields, field.node.Declares name := by
        simp only [describeFields_eq_map, List.mem_map, exists_exists_and_eq_and,
          describeField_eq]
        exact exists_congr fun field => and_congr_right fun member => each field member
      have admitted : (∃ node, shape.additional.map describe = some node ∧ node.States name) ↔
          ∃ node, shape.additional = some node ∧ node.Declares name := by
        cases found : shape.additional with
        | none => simp
        | some node => simpa using open_ node found
      rw [describe_object, Description.states_object_iff, declares_object_iff,
        ← mem_names_iff_declares, Shape.names, Shape.names, names_describeFields, inside, admitted]

end Schema

namespace Description

variable {description : Description} {schema : Schema}

/-- A description loads exactly if it states field names only, and then to the schema that it
describes. -/
theorem load_eq_ok :
    load location description = .ok schema ↔
      (∀ name, description.States name → IsFieldName name) ∧ schema.describe = description := by
  have flawless_iff : schema.NamesFit Flawless ↔
      ∀ name, schema.describe.States name → IsFieldName name := by
    simp only [Schema.namesFit_flawless_iff, Schema.states_describe, isFieldName_iff]
  constructor
  · intro loaded
    obtain ⟨flawless, rfl⟩ := describe_of_load loaded
    exact ⟨flawless_iff.mp flawless, rfl⟩
  · intro ⟨named, same⟩
    subst same
    exact (load_describe schema location schema).mpr ⟨flawless_iff.mpr named, rfl⟩

end Description

namespace Shape

variable {shape : Shape α} {fields : List (Field α)} {field : Field α}

/-- Writes a field in two calls: it and its first flag, and then its second flag, which the first
call clears. -/
def write (shape : Shape α) (field : Field α) : Shape α :=
  (shape.insert field.name field.node field.optional).setNullable field.name field.nullable

theorem find?_put_self : (shape.put field).find? field.name = some field := by
  rw [put, find?, find?_putField, if_pos rfl]

theorem write_eq_put : shape.write field = shape.put field := by
  obtain ⟨name, node, optional, nullable⟩ := field
  have found : (shape.put ⟨name, node, optional, false⟩).find? name =
      some ⟨name, node, optional, false⟩ := find?_put_self
  rw [write, setNullable, modify, insert, found]
  simp only [put, putField_putField]

theorem putField_of_new (new : field.name ∉ fields.map Field.name) :
    putField fields field = fields ++ [field] := by
  induction fields with
  | nil => rfl
  | cons first rest ih =>
      simp only [List.map_cons, List.mem_cons, not_or] at new
      simp [putField, Ne.symm new.1, ih new.2]

/-- Fields of different names are kept in the order in which they are written. -/
theorem foldl_write (distinct : (shape.names ++ fields.map Field.name).Nodup) :
    fields.foldl write shape = { shape with fields := shape.fields ++ fields } := by
  induction fields generalizing shape with
  | nil => simp
  | cons field rest ih =>
      have new : field.name ∉ shape.fields.map Field.name := by
        intro old
        exact (List.disjoint_of_nodup_append distinct) old List.mem_cons_self
      have written : shape.write field = { shape with fields := shape.fields ++ [field] } := by
        rw [write_eq_put, put, putField_of_new new]
      rw [List.foldl_cons, written, ih (by simpa [names] using distinct)]
      simp

end Shape

namespace Description

def writeFields (location : String) (object : Shape Schema) :
    List (Field Description) → Except NameError (Shape Schema)
  | [] => .ok object
  | ⟨name, node, optional, nullable⟩ :: rest => do
    checkName location name
    let child ← load (fieldLocation location name) node
    writeFields location ((object.insert name child optional).setNullable name nullable) rest

/-- Loads an object field by field, and then the type of its undeclared keys. -/
def writeShape (location : String) (shape : Shape Description) :
    Except NameError (Shape Schema) := do
  let object ← writeFields location .empty shape.fields
  match shape.additional with
  | none => return object
  | some node => do
    let child ← load (location ++ ".*") node
    return object.withAdditional child

theorem writeFields_eq (object : Shape Schema) (fields : List (Field Description)) :
    writeFields location object fields =
      loadFields location fields >>= fun loaded => .ok (loaded.foldl Shape.write object) := by
  induction fields generalizing object with
  | nil => rfl
  | cons field rest ih =>
      obtain ⟨name, node, optional, nullable⟩ := field
      simp only [writeFields, loadFields, loadField, bind_assoc, pure_bind, ih]
      rfl

theorem names_of_loadFields {fields : List (Field Description)} {loaded : List (Field Schema)}
    (stated : loadFields location fields = .ok loaded) :
    loaded.map Field.name = fields.map Field.name := by
  obtain ⟨declared, rfl⟩ := exists_describeFields fields
  obtain ⟨_, rfl⟩ := (loadFields_describe fun field _ => load_describe field.node).mp stated
  exact (Schema.names_describeFields loaded).symm

/-- Loading an object writes its fields one after another, if no name occurs twice. -/
theorem writeShape_eq_loadShape {shape : Shape Description} (distinct : shape.names.Nodup) :
    writeShape location shape = loadShape location shape := by
  obtain ⟨fields, additional⟩ := shape
  rw [writeShape, loadShape, writeFields_eq]
  cases stated : loadFields location fields with
  | error flaw => rfl
  | ok loaded =>
      have names : ((Shape.empty : Shape Schema).names ++ loaded.map Field.name).Nodup := by
        rw [names_of_loadFields stated]
        exact distinct
      simp only [ok_bind, Shape.foldl_write names]
      cases additional with
      | none => rfl
      | some node =>
          simp only [loadAdditional, bind_assoc, pure_bind]
          rfl

theorem load_object_eq_writeShape {shape : Shape Description} (distinct : shape.names.Nodup) :
    load location (object shape) = Schema.object <$> writeShape location shape := by
  rw [writeShape_eq_loadShape distinct, load, map_eq_pure_bind]

end Description

namespace Schema

/-- Describing an object looks its flags up by name, if no name occurs twice. -/
theorem describe_object_of_distinct {shape : Shape Schema} (distinct : shape.names.Nodup) :
    (object shape).describe =
      .object ⟨shape.fields.map fun field =>
        ⟨field.name, field.node.describe, shape.isOptional field.name,
          shape.isNullable field.name⟩, shape.additional.map describe⟩ := by
  have flags : ∀ field ∈ shape.fields, describeField field =
      ⟨field.name, field.node.describe, shape.isOptional field.name,
        shape.isNullable field.name⟩ := by
    intro field member
    have found := Shape.find?_of_mem distinct member
    rw [describeField_eq, Shape.isOptional, Shape.isNullable, found]
    rfl
  rw [describe_object, describeFields_eq_map, List.map_congr_left flags]

/-- A root loads exactly from the descriptions of objects in which every name, at any depth, is a
field name, and its description is the one it was loaded from.  Conversely a schema that declares
field names only is loaded, at any location, from its description.  Where no name of an object
occurs twice, loading writes its fields one after another, and describing looks up their flags. -/
theorem describe_inverts_load :
    (∀ source description,
      ((∃ root, ofDescription source description = .ok root) ↔
        description.isObject = true ∧ ∀ name, description.States name → IsFieldName name) ∧
      ∀ root, ofDescription source description = .ok root → root.describe = description) ∧
    (∀ schema : Schema, (∀ name, schema.Declares name → IsFieldName name) →
      ∀ location, schema.describe.load location = .ok schema) ∧
    (∀ location (shape : Shape Description), shape.names.Nodup →
      (Description.object shape).load location =
        Schema.object <$> Description.writeShape location shape) ∧
    ∀ shape : Shape Schema, shape.names.Nodup →
      (object shape).describe =
        .object ⟨shape.fields.map fun field =>
          ⟨field.name, field.node.describe, shape.isOptional field.name,
            shape.isNullable field.name⟩, shape.additional.map describe⟩ := by
  refine ⟨fun source description => ⟨⟨?_, ?_⟩, ?_⟩, ?_, ?_, ?_⟩
  · intro ⟨root, loaded⟩
    obtain ⟨isRoot, loads⟩ := ofDescription_eq_ok.mp loaded
    exact ⟨isRoot, (Description.load_eq_ok.mp loads).1⟩
  · intro ⟨isRoot, named⟩
    obtain ⟨root, describes⟩ := description.exists_describe
    have loads : description.load "" = .ok root := Description.load_eq_ok.mpr ⟨named, describes⟩
    exact ⟨root, ofDescription_eq_ok.mpr ⟨isRoot, loads⟩⟩
  · intro root loaded
    exact (Description.load_eq_ok.mp (ofDescription_eq_ok.mp loaded).2).2
  · intro schema named location
    apply Description.load_eq_ok.mpr
    exact ⟨fun name stated => named name (states_describe.mp stated), rfl⟩
  · intro location shape distinct
    exact Description.load_object_eq_writeShape distinct
  · intro shape distinct
    exact describe_object_of_distinct distinct

/-- A crate of items that may lack a label, with any further counts. -/
def crate : Schema :=
  object ⟨[⟨"items", array (object ⟨[⟨"label", string, true, true⟩], none⟩), false, false⟩],
    some number⟩

/-- A crate is loaded again from its description.  A dotted name below undeclared keys keeps a
description from loading. -/
theorem describe_inverts_load_crate :
    crate.describe.load "store[]" = .ok crate ∧
      ¬ ∃ root, ofDescription "store"
        (.object ⟨[], some (.array (.object ⟨[⟨"a.b", .scalar .int, false, false⟩], none⟩))⟩) =
          .ok root := by
  obtain ⟨roots, schemas, _⟩ := describe_inverts_load
  constructor
  · have loads : ofDescription "store" crate.describe = .ok crate := by rfl
    obtain ⟨_, named⟩ := (roots _ _).1.mp ⟨crate, loads⟩
    exact schemas crate (fun name declared => named name (states_describe.mpr declared)) _
  · intro loaded
    obtain ⟨_, named⟩ := (roots _ _).1.mp loaded
    have dotted := named "a.b" (.additional rfl (.items (.here List.mem_cons_self)))
    exact dotted.2.2 (by decide)

end Schema

end DocTyping
