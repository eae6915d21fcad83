import DocTyping.Proofs.Keyed
import DocTyping.Proofs.Schema.Equality
import DocTyping.Proofs.Schema.Removal
import Mathlib.Data.Finset.Basic

namespace DocTyping

/-!
# Flags beside the fields

An object may also be kept as three collections side by side: the types of its fields, the names
of those that may be absent, and the names of those that may hold null.  Then each change has
to keep the three in step.  It does: after any changes the flags are those of declared fields, and
the object is the one whose fields carry their flags themselves.
-/

/-- The declared fields in order, the names that may be absent, the names that may hold null, and
the type of undeclared keys. -/
structure FieldTable (α : Type) where
  fields : Keyed α
  optional : Finset String
  nullable : Finset String
  additional : Option α

inductive ShapeEdit (α : Type) where
  | insert (name : String) (node : α) (optional : Bool)
  | withField (name : String) (node : α)
  | withOptionalField (name : String) (node : α)
  | withNullableField (name : String) (node : α)
  | withAdditional (node : α)
  | remove (name : String)
  | setOptional (name : String) (optional : Bool)
  | setNullable (name : String) (nullable : Bool)

variable {α : Type} {name key : String} {node : α} {names : Finset String} {value : Bool}
  {field : Field α} {table : FieldTable α} {shape : Shape α} {entries : Keyed α}

namespace FieldTable

def start (additional : Option α) : FieldTable α := ⟨[], ∅, ∅, additional⟩

/-- Puts a name into a set of flagged names, or takes it out. -/
def setFlag (names : Finset String) (name : String) (value : Bool) : Finset String :=
  if value then Insert.insert name names else names.erase name

def insert (table : FieldTable α) (name : String) (node : α) (optional : Bool) : FieldTable α :=
  { table with
    fields := table.fields.put name node
    optional := setFlag table.optional name optional
    nullable := table.nullable.erase name }

def insertNullable (table : FieldTable α) (name : String) (node : α) : FieldTable α :=
  let inserted := table.insert name node false
  { inserted with nullable := Insert.insert name inserted.nullable }

def remove (table : FieldTable α) (name : String) : FieldTable α :=
  { table with
    fields := table.fields.eraseP fun entry => entry.1 == name
    optional := table.optional.erase name
    nullable := table.nullable.erase name }

/-- Flags of names that are not declared stay as they are. -/
def setOptional (table : FieldTable α) (name : String) (value : Bool) : FieldTable α :=
  if table.fields.has name then { table with optional := setFlag table.optional name value }
  else table

def setNullable (table : FieldTable α) (name : String) (value : Bool) : FieldTable α :=
  if table.fields.has name then { table with nullable := setFlag table.nullable name value }
  else table

def withAdditional (table : FieldTable α) (node : α) : FieldTable α :=
  { table with additional := some node }

/-- Every name is declared once, and only declared names are flagged. -/
structure Consistent (table : FieldTable α) : Prop where
  distinct : table.fields.names.Nodup
  optional_declared : ∀ name ∈ table.optional, name ∈ table.fields.names
  nullable_declared : ∀ name ∈ table.nullable, name ∈ table.fields.names

def flagged (optional nullable : Finset String) (entry : String × α) : Field α :=
  ⟨entry.1, entry.2, decide (entry.1 ∈ optional), decide (entry.1 ∈ nullable)⟩

/-- The object whose fields carry their flags. -/
def toShape (table : FieldTable α) : Shape α :=
  ⟨table.fields.map (flagged table.optional table.nullable), table.additional⟩

def write (table : FieldTable α) (field : Field α) : FieldTable α :=
  { table with
    fields := table.fields.put field.name field.node
    optional := setFlag table.optional field.name field.optional
    nullable := setFlag table.nullable field.name field.nullable }

theorem mem_setFlag_self : name ∈ setFlag names name value ↔ value = true := by
  cases value <;> simp [setFlag]

theorem mem_setFlag_of_ne (different : key ≠ name) :
    key ∈ setFlag names name value ↔ key ∈ names := by
  cases value <;> simp [setFlag, different]

theorem setFlag_held : setFlag names name (decide (name ∈ names)) = names := by
  by_cases held : name ∈ names
  · simp [setFlag, held]
  · simp [setFlag, held]

/-! ### Changes as writes -/

theorem insertNullable_eq_write :
    table.insertNullable name node = table.write ⟨name, node, false, true⟩ := by
  have flagged : Insert.insert name (table.nullable.erase name) =
      Insert.insert name table.nullable := by
    ext key
    by_cases same : key = name <;> simp [same]
  simp [insertNullable, insert, write, setFlag, flagged]

theorem has_of_get? (declared : entries.get? name = some node) : entries.has name = true := by
  rw [Keyed.has_eq_isSome_lookup]
  exact Option.isSome_of_eq_some declared

theorem setOptional_eq_write (declared : table.fields.get? name = some node) :
    table.setOptional name value =
      table.write ⟨name, node, value, decide (name ∈ table.nullable)⟩ := by
  simp [setOptional, has_of_get? declared, write, setFlag_held, Keyed.put_of_get? declared]

theorem setNullable_eq_write (declared : table.fields.get? name = some node) :
    table.setNullable name value =
      table.write ⟨name, node, decide (name ∈ table.optional), value⟩ := by
  simp [setNullable, has_of_get? declared, write, setFlag_held, Keyed.put_of_get? declared]

theorem setFlags_of_undeclared (undeclared : table.fields.get? name = none) :
    table.setOptional name value = table ∧ table.setNullable name value = table := by
  have absent : table.fields.has name = false := by
    rw [Keyed.has_eq_isSome_lookup]
    exact Option.isSome_eq_false_iff.mpr (Option.isNone_iff_eq_none.mpr undeclared)
  simp [setOptional, setNullable, absent]

/-! ### The object of a table -/

theorem names_toShape : table.toShape.names = table.fields.names := by
  simp [toShape, Shape.names, Keyed.names, flagged, Function.comp_def]

theorem find?_toShape :
    table.toShape.find? name =
      (table.fields.get? name).map fun node =>
        flagged table.optional table.nullable (name, node) := by
  obtain ⟨entries, optional, nullable, additional⟩ := table
  simp only [toShape, Shape.find?, Keyed.get?]
  induction entries with
  | nil => rfl
  | cons entry rest ih =>
      obtain ⟨held, old⟩ := entry
      by_cases same : held = name
      · subst same
        simp [flagged]
      · rw [List.map_cons, List.find?_cons_of_neg (by simpa [flagged] using same), ih,
          Keyed.lookup_cons_of_ne same]

theorem map_put {old new : String × α → Field α} (named : ∀ entry, (old entry).name = entry.1)
    (written : new (field.name, field.node) = field)
    (kept : ∀ entry, entry.1 ≠ field.name → new entry = old entry)
    (distinct : entries.names.Nodup) :
    (entries.put field.name field.node).map new = Shape.putField (entries.map old) field := by
  induction entries with
  | nil => simp [Keyed.put, Shape.putField, written]
  | cons entry rest ih =>
      obtain ⟨first, later⟩ := List.nodup_cons.mp distinct
      by_cases same : entry.1 = field.name
      · have others : rest.map new = rest.map old := by
          apply List.map_congr_left
          intro entry member
          apply kept entry
          intro again
          exact first (same.trans again.symm ▸ List.mem_map_of_mem member)
        simp [Keyed.put, Shape.putField, same, named, written, others]
      · simp [Keyed.put, Shape.putField, same, named, kept entry same, ih later]

/-- A field that is written into a table stands in its object with its flags. -/
theorem toShape_write (distinct : table.fields.names.Nodup) :
    (table.write field).toShape = table.toShape.put field := by
  simp only [toShape, write, Shape.put, Shape.mk.injEq, and_true]
  apply map_put _ _ _ distinct
  · intro entry
    rfl
  · simp [flagged, mem_setFlag_self]
  · intro entry different
    simp [flagged, mem_setFlag_of_ne different]

theorem toShape_remove (distinct : table.fields.names.Nodup) :
    (table.remove name).toShape = table.toShape.remove name := by
  obtain ⟨entries, optional, nullable, additional⟩ := table
  simp only [toShape, remove, Shape.remove, Shape.mk.injEq, and_true]
  induction entries with
  | nil => rfl
  | cons entry rest ih =>
      obtain ⟨first, later⟩ := List.nodup_cons.mp distinct
      by_cases same : entry.1 = name
      · have others : ∀ other ∈ rest, flagged (optional.erase name) (nullable.erase name) other =
            flagged optional nullable other := by
          intro other member
          have different : other.1 ≠ name := by
            intro again
            exact first (same.trans again.symm ▸ List.mem_map_of_mem member)
          simp [flagged, different]
        simp [same, flagged, List.map_congr_left others]
      · simp [same, flagged, ih later]

/-! ### Consistent tables -/

theorem start_consistent (additional : Option α) : (start additional).Consistent :=
  ⟨List.nodup_nil, by simp [start], by simp [start]⟩

theorem declared_setFlag (declared : ∀ name ∈ names, name ∈ entries.names) :
    ∀ held ∈ setFlag names name value, held ∈ (entries.put name node).names := by
  intro held member
  rw [Keyed.names_put]
  by_cases same : held = name
  · subst same
    split <;> simp_all
  · have kept := declared held ((mem_setFlag_of_ne same).mp member)
    split <;> simp [kept]

theorem Consistent.write (consistent : table.Consistent) (field : Field α) :
    (table.write field).Consistent :=
  ⟨Keyed.put_nodup field.node consistent.distinct, declared_setFlag consistent.optional_declared,
    declared_setFlag consistent.nullable_declared⟩

theorem names_remove :
    (table.remove name).fields.names = table.fields.names.erase name := by
  rw [List.erase_eq_eraseP', Keyed.names, Keyed.names, List.eraseP_map]
  rfl

theorem Consistent.remove (consistent : table.Consistent) (name : String) :
    (table.remove name).Consistent := by
  have declared : ∀ flags : Finset String, (∀ held ∈ flags, held ∈ table.fields.names) →
      ∀ held ∈ flags.erase name, held ∈ (table.remove name).fields.names := by
    intro flags declared held member
    obtain ⟨different, flagged⟩ := Finset.mem_erase.mp member
    rw [names_remove]
    exact (List.mem_erase_of_ne different).mpr (declared held flagged)
  refine ⟨?_, declared _ consistent.optional_declared, declared _ consistent.nullable_declared⟩
  rw [names_remove]
  exact consistent.distinct.erase name

/-- The flags beside the fields of a consistent table are those of the fields of its object. -/
theorem Consistent.flags (consistent : table.Consistent) (name : String) :
    (name ∈ table.optional ↔ table.toShape.isOptional name = true) ∧
      (name ∈ table.nullable ↔ table.toShape.isNullable name = true) := by
  rw [Shape.isOptional, Shape.isNullable, find?_toShape]
  cases declared : table.fields.get? name with
  | none =>
      have absent : name ∉ table.fields.names := by
        rw [← Keyed.get?_isSome_iff, declared]
        exact Bool.false_ne_true
      have mandatory : name ∉ table.optional := mt (consistent.optional_declared name) absent
      have total : name ∉ table.nullable := mt (consistent.nullable_declared name) absent
      simp [mandatory, total]
  | some node => simp [flagged]

end FieldTable

namespace Shape

/-- A field is written: it has the given type and flags, and a declared one keeps its position. -/
structure Writes (before : Shape α) (field : Field α) (after : Shape α) : Prop where
  found : after.find? field.name = some field
  others : ∀ name, name ≠ field.name → after.find? name = before.find? name
  names : after.names =
    if field.name ∈ before.names then before.names else before.names ++ [field.name]

/-- A field is removed, and the others stay in their order. -/
structure Drops (before : Shape α) (name : String) (after : Shape α) : Prop where
  gone : after.find? name = none
  others : ∀ key, key ≠ name → after.find? key = before.find? key
  names : after.names = before.names.filter (· != name)

theorem put_writes (shape : Shape α) (field : Field α) : shape.Writes field (shape.put field) where
  found := by
    rw [find?_put, if_pos rfl]
  others name different := by
    rw [find?_put, if_neg (Ne.symm different)]
  names := names_putField shape.fields field

theorem remove_drops (distinct : shape.names.Nodup) (name : String) :
    shape.Drops name (shape.remove name) where
  gone := by
    rw [remove_eq_alter]
    exact find?_alter_none distinct
  others key different := by
    rw [remove_eq_alter]
    exact find?_alter_of_ne different
  names := by
    rw [← distinct.erase_eq_filter, List.erase_eq_eraseP', Shape.names, Shape.names,
      List.eraseP_map]
    rfl

end Shape

namespace ShapeEdit

/-- A change of an object whose fields carry their flags. -/
def onShape : ShapeEdit α → Shape α → Shape α
  | insert name node optional, shape => shape.insert name node optional
  | withField name node, shape => shape.insert name node false
  | withOptionalField name node, shape => shape.insert name node true
  | withNullableField name node, shape => shape.put ⟨name, node, false, true⟩
  | withAdditional node, shape => shape.withAdditional node
  | remove name, shape => shape.remove name
  | setOptional name optional, shape => shape.setOptional name optional
  | setNullable name nullable, shape => shape.setNullable name nullable

/-- A change of an object whose flags are kept beside the fields. -/
def onTable : ShapeEdit α → FieldTable α → FieldTable α
  | insert name node optional, table => table.insert name node optional
  | withField name node, table => table.insert name node false
  | withOptionalField name node, table => table.insert name node true
  | withNullableField name node, table => table.insertNullable name node
  | withAdditional node, table => table.withAdditional node
  | remove name, table => table.remove name
  | setOptional name optional, table => table.setOptional name optional
  | setNullable name nullable, table => table.setNullable name nullable

/-- The field that a change states as a whole. -/
def stated? : ShapeEdit α → Option (Field α)
  | insert name node optional => some ⟨name, node, optional, false⟩
  | withField name node => some ⟨name, node, false, false⟩
  | withOptionalField name node => some ⟨name, node, true, false⟩
  | withNullableField name node => some ⟨name, node, false, true⟩
  | _ => none

def shapeAfter (edits : List (ShapeEdit α)) (shape : Shape α) : Shape α :=
  edits.foldl (fun shape edit => edit.onShape shape) shape

def tableAfter (edits : List (ShapeEdit α)) (table : FieldTable α) : FieldTable α :=
  edits.foldl (fun table edit => edit.onTable table) table

variable {edit : ShapeEdit α} {edits later : List (ShapeEdit α)}

theorem onShape_stated (stated : edit.stated? = some field) :
    edit.onShape shape = shape.put field := by
  cases edit <;> cases stated <;> rfl

/-- What a change does to a table and to its object: both get the same field, which the change
states or which is declared already, or lose the same one, or admit the same undeclared keys, or
stay as they are. -/
theorem onTable_cases (edit : ShapeEdit α) (table : FieldTable α) :
    (∃ field, (edit.stated? = some field ∨ field.name ∈ table.fields.names) ∧
      edit.onTable table = table.write field ∧
        edit.onShape table.toShape = table.toShape.put field) ∨
    (∃ name, edit = remove name) ∨ (∃ node, edit = withAdditional node) ∨
    (edit.onTable table = table ∧ edit.onShape table.toShape = table.toShape) := by
  cases edit with
  | insert name node optional => exact .inl ⟨_, .inl rfl, rfl, rfl⟩
  | withField name node => exact .inl ⟨_, .inl rfl, rfl, rfl⟩
  | withOptionalField name node => exact .inl ⟨_, .inl rfl, rfl, rfl⟩
  | withNullableField name node =>
      exact .inl ⟨_, .inl rfl, FieldTable.insertNullable_eq_write, rfl⟩
  | withAdditional node => exact .inr (.inr (.inl ⟨node, rfl⟩))
  | remove name => exact .inr (.inl ⟨name, rfl⟩)
  | setOptional name value =>
      cases declared : table.fields.get? name with
      | none =>
          have kept := (@FieldTable.setFlags_of_undeclared _ _ value _ declared).1
          refine .inr (.inr (.inr ⟨kept, ?_⟩))
          simp [onShape, Shape.setOptional, Shape.modify, FieldTable.find?_toShape, declared]
      | some node =>
          refine .inl ⟨_, .inr ?_, FieldTable.setOptional_eq_write declared, ?_⟩
          · exact Keyed.get?_isSome_iff.mp (Option.isSome_of_eq_some declared)
          · simp [onShape, Shape.setOptional, Shape.modify, FieldTable.find?_toShape, declared,
              FieldTable.flagged]
  | setNullable name value =>
      cases declared : table.fields.get? name with
      | none =>
          have kept := (@FieldTable.setFlags_of_undeclared _ _ value _ declared).2
          refine .inr (.inr (.inr ⟨kept, ?_⟩))
          simp [onShape, Shape.setNullable, Shape.modify, FieldTable.find?_toShape, declared]
      | some node =>
          refine .inl ⟨_, .inr ?_, FieldTable.setNullable_eq_write declared, ?_⟩
          · exact Keyed.get?_isSome_iff.mp (Option.isSome_of_eq_some declared)
          · simp [onShape, Shape.setNullable, Shape.modify, FieldTable.find?_toShape, declared,
              FieldTable.flagged]

theorem onTable_consistent (consistent : table.Consistent) (edit : ShapeEdit α) :
    (edit.onTable table).Consistent ∧
      (edit.onTable table).toShape = edit.onShape table.toShape := by
  rcases edit.onTable_cases table with
    ⟨field, _, written, put⟩ | ⟨name, rfl⟩ | ⟨node, rfl⟩ | ⟨kept, keptToo⟩
  · rw [written, put]
    exact ⟨consistent.write field, FieldTable.toShape_write consistent.distinct⟩
  · exact ⟨consistent.remove name, FieldTable.toShape_remove consistent.distinct⟩
  · exact ⟨⟨consistent.distinct, consistent.optional_declared, consistent.nullable_declared⟩, rfl⟩
  · rw [kept, keptToo]
    exact ⟨consistent, rfl⟩

theorem tableAfter_consistent (consistent : table.Consistent) :
    (tableAfter edits table).Consistent ∧
      (tableAfter edits table).toShape = shapeAfter edits table.toShape := by
  induction edits generalizing table with
  | nil => exact ⟨consistent, rfl⟩
  | cons edit rest ih =>
      obtain ⟨next, same⟩ := onTable_consistent consistent edit
      obtain ⟨last, sameLast⟩ := ih next
      refine ⟨last, ?_⟩
      rw [same] at sameLast
      exact sameLast

theorem mem_names_put : key ∈ (shape.put field).names ↔ key ∈ shape.names ∨ key = field.name := by
  rw [(shape.put_writes field).names]
  split
  · rename_i declared
    have kept : key = field.name → key ∈ shape.names := fun same => same ▸ declared
    tauto
  · simp

theorem mem_names_modify {change : Field α → Field α}
    (member : key ∈ (shape.modify name change).names) : key ∈ shape.names := by
  cases declared : shape.find? name with
  | none => simpa [Shape.modify, declared] using member
  | some field =>
      simp only [Shape.modify, declared, mem_names_put] at member
      rcases member with kept | same
      · exact kept
      · exact same ▸ List.mem_map_of_mem (Shape.mem_of_find? declared)

/-- A name that is not declared stays undeclared until a change states its field. -/
theorem mem_names_onShape (member : name ∈ (edit.onShape shape).names) :
    name ∈ shape.names ∨ ∃ field, edit.stated? = some field ∧ field.name = name := by
  cases stated : edit.stated? with
  | some field =>
      rw [onShape_stated stated, mem_names_put] at member
      exact member.imp_right fun same => ⟨field, rfl, same.symm⟩
  | none =>
      apply Or.inl
      cases edit with
      | withAdditional node => exact member
      | remove other =>
          have fewer : (shape.remove other).fields.Sublist shape.fields := List.eraseP_sublist
          exact (fewer.map Field.name).mem member
      | setOptional other value => exact mem_names_modify member
      | setNullable other value => exact mem_names_modify member
      | _ => contradiction

theorem shapeAfter_undeclared (undeclared : shape.find? name = none)
    (unstated : ∀ edit ∈ edits, ∀ field, edit.stated? = some field → field.name ≠ name) :
    (shapeAfter edits shape).find? name = none := by
  induction edits generalizing shape with
  | nil => exact undeclared
  | cons edit rest ih =>
      obtain ⟨first, later⟩ := List.forall_mem_cons.mp unstated
      apply ih _ later
      rw [Shape.find?_eq_none_iff] at undeclared ⊢
      intro member
      rcases mem_names_onShape member with declared | ⟨field, stated, same⟩
      · exact undeclared declared
      · exact first field stated same

theorem shapeAfter_append :
    shapeAfter (edits ++ later) shape = shapeAfter later (shapeAfter edits shape) :=
  List.foldl_append

/-- However an object is changed, the flags beside its fields are those of declared fields and
agree with the ones that the fields carry.  A field that is written keeps its position and has
just the flags that are stated with it, and the others keep their order around a removed one,
which leaves no flags behind. -/
theorem edits_keep_flags (additional : Option α) (edits : List (ShapeEdit α)) :
    let table := tableAfter edits (.start additional)
    let shape := shapeAfter edits ⟨[], additional⟩
    (table.Consistent ∧ table.toShape = shape) ∧
    (∀ name, (name ∈ table.optional ↔ shape.isOptional name = true) ∧
      (name ∈ table.nullable ↔ shape.isNullable name = true)) ∧
    (∀ edit field, edit.stated? = some field →
      shape.Writes field (shapeAfter (edits ++ [edit]) ⟨[], additional⟩)) ∧
    (∀ name, shape.Drops name (shapeAfter (edits ++ [remove name]) ⟨[], additional⟩)) ∧
    ∀ name later, (∀ edit ∈ later, ∀ field, edit.stated? = some field → field.name ≠ name) →
      (shapeAfter (edits ++ remove name :: later) ⟨[], additional⟩).find? name = none := by
  intro table shape
  obtain ⟨consistent, same⟩ :=
    @tableAfter_consistent _ _ edits (FieldTable.start_consistent additional)
  have object : table.toShape = shape := same
  have distinct : shape.names.Nodup := by
    rw [← object, FieldTable.names_toShape]
    exact consistent.distinct
  refine ⟨⟨consistent, object⟩, ?_, ?_, ?_, ?_⟩
  · intro name
    rw [← object]
    exact consistent.flags name
  · intro edit field stated
    rw [shapeAfter_append]
    change shape.Writes field (edit.onShape shape)
    rw [onShape_stated stated]
    exact shape.put_writes field
  · intro name
    rw [shapeAfter_append]
    exact Shape.remove_drops distinct name
  · intro name later unstated
    rw [shapeAfter_append]
    change (shapeAfter later (shape.remove name)).find? name = none
    exact shapeAfter_undeclared (Shape.remove_drops distinct name).gone unstated

/-- Saying that a removed telephone number may hold null leaves no flag for it. -/
theorem edits_keep_flags_removed :
    (shapeAfter ([withNullableField "phone" Schema.string, withField "name" .string] ++
      remove "phone" :: [setNullable "phone" true]) ⟨[], none⟩).find? "phone" = none := by
  obtain ⟨_, _, _, _, forgotten⟩ :=
    edits_keep_flags none [withNullableField "phone" Schema.string, withField "name" .string]
  apply forgotten
  intro edit member field stated
  cases List.mem_singleton.mp member
  contradiction

end ShapeEdit

end DocTyping
