import DocTyping.Proofs.Schema.Names
import DocTyping.Schema.Description
import Mathlib.Data.List.Nodup

namespace DocTyping

/-!
# Rules for declared names

A rule says which names an object may declare together.  The rules considered here
admit a sound name alone, pass to fewer names, and pass to two lists without a name
in common.  That no name occurs twice is such a rule, and so is any condition on
each name that sound names satisfy.  What follows a rule at every depth of a schema
does so after fields are written or removed.
-/

theorem NameFlaw.of?_eq_none_iff {name : String} :
    NameFlaw.of? name = none ↔
      name.toList ≠ [] ∧ name.toList.head? ≠ some '$' ∧ '.' ∉ name.toList := by
  unfold NameFlaw.of?
  split
  · rename_i empty
    simp [empty]
  · split
    · rename_i dollar
      simp [dollar]
    · split
      · rename_i dotted
        simp_all
      · rename_i filled plain undotted
        simp_all

/-- A rule for the names of one object that admits sound names, each alone. -/
structure NameRule (fits : List String → Prop) : Prop where
  sound {name : String} (flawless : NameFlaw.of? name = none) : fits [name]
  fewer {names kept : List String} (sublist : kept.Sublist names) (all : fits names) : fits kept
  union {left right : List String} (apart : left.Disjoint right) (former : fits left)
    (latter : fits right) : fits (left ++ right)

/-- No name occurs twice. -/
theorem nodup_nameRule : NameRule List.Nodup where
  sound _ := List.nodup_singleton _
  fewer sublist all := all.sublist sublist
  union apart former latter := former.append latter apart

/-- Each name satisfies a condition that sound names satisfy. -/
theorem forall_nameRule {holds : String → Prop}
    (sound : ∀ {name}, NameFlaw.of? name = none → holds name) :
    NameRule fun names => ∀ name ∈ names, holds name where
  sound flawless := by simpa using sound flawless
  fewer sublist all := fun name member => all name (sublist.subset member)
  union _ former latter := List.forall_mem_append.mpr ⟨former, latter⟩

namespace NameRule

variable {fits : List String → Prop} {names : List String} {name : String}

theorem nil (rule : NameRule fits) : fits [] :=
  rule.fewer (List.nil_sublist ["a"]) (rule.sound (by decide))

theorem single (rule : NameRule fits) (all : fits names) (member : name ∈ names) : fits [name] :=
  rule.fewer (List.singleton_sublist.mpr member) all

theorem sounds (rule : NameRule fits) (flawless : ∀ name ∈ names, NameFlaw.of? name = none) :
    ∀ name ∈ names, fits [name] :=
  fun name member => rule.sound (flawless name member)

/-- Sound names fit together where none occurs twice. -/
theorem known (rule : NameRule fits) (distinct : names.Nodup)
    (flawless : ∀ name ∈ names, NameFlaw.of? name = none) : fits names := by
  induction names with
  | nil => exact rule.nil
  | cons name rest ih =>
      obtain ⟨new, later⟩ := List.nodup_cons.mp distinct
      obtain ⟨head, tail⟩ := List.forall_mem_cons.mp flawless
      exact rule.union (List.singleton_disjoint.mpr new) (rule.sound head) (ih later tail)

theorem putField {α : Type} {fields : List (Field α)} {field : Field α} (rule : NameRule fits)
    (all : fits (fields.map Field.name)) (added : fits [field.name]) :
    fits ((Shape.putField fields field).map Field.name) := by
  rw [Shape.names_putField]
  split
  · exact all
  · rename_i absent
    exact rule.union (List.disjoint_singleton.mpr absent) all added

theorem foldl_putField {α : Type} {added fields : List (Field α)} (rule : NameRule fits)
    (all : fits (fields.map Field.name)) (each : ∀ field ∈ added, fits [field.name]) :
    fits ((added.foldl Shape.putField fields).map Field.name) := by
  induction added generalizing fields with
  | nil => exact all
  | cons field rest ih =>
      obtain ⟨head, tail⟩ := List.forall_mem_cons.mp each
      exact ih (rule.putField all head) tail

end NameRule

namespace Schema

/-- Every object inside a schema declares names that fit together. -/
inductive NamesFit (fits : List String → Prop) : Schema → Prop
  | scalar (kind : ScalarKind) : NamesFit fits (scalar kind)
  | array {element : Schema} (inside : NamesFit fits element) : NamesFit fits (array element)
  | object {shape : Shape Schema} (names : fits shape.names)
      (fields : ∀ field ∈ shape.fields, NamesFit fits field.node)
      (additional : ∀ node, shape.additional = some node → NamesFit fits node) :
      NamesFit fits (object shape)

theorem sizeOf_field_lt {shape : Shape Schema} {field : Field Schema}
    (member : field ∈ shape.fields) : sizeOf field.node < sizeOf shape := by
  have listed := List.sizeOf_lt_of_mem member
  obtain ⟨name, node, optional, nullable⟩ := field
  obtain ⟨fields, additional⟩ := shape
  simp only [Field.mk.sizeOf_spec, Shape.mk.sizeOf_spec] at listed ⊢
  omega

theorem sizeOf_additional_lt {shape : Shape Schema} {node : Schema}
    (admitted : shape.additional = some node) : sizeOf node < sizeOf shape := by
  obtain ⟨fields, additional⟩ := shape
  simp only at admitted
  subst admitted
  simp only [Option.some.sizeOf_spec, Shape.mk.sizeOf_spec]
  omega

/-- Induction over schemas: an object is reached from the types of its fields and of the keys that
it does not declare. -/
@[elab_as_elim]
theorem partsInduction {motive : Schema → Prop} (scalar : ∀ kind, motive (scalar kind))
    (array : ∀ element, motive element → motive (array element))
    (object : ∀ shape : Shape Schema, (∀ field ∈ shape.fields, motive field.node) →
      (∀ node, shape.additional = some node → motive node) → motive (object shape)) :
    ∀ schema, motive schema
  | .scalar kind => scalar kind
  | .array element => array element (partsInduction scalar array object element)
  | .object shape => by
      refine object shape (fun field member => ?_) fun node admitted => ?_
      · have smaller := sizeOf_field_lt member
        exact partsInduction scalar array object field.node
      · have smaller := sizeOf_additional_lt admitted
        exact partsInduction scalar array object node
termination_by schema => sizeOf schema

variable {fits : List String → Prop} {schema element node : Schema} {shape : Shape Schema}
  {key : String}

theorem namesFit_array_iff : NamesFit fits (array element) ↔ NamesFit fits element :=
  ⟨fun | .array inside => inside, .array⟩

theorem namesFit_object_iff :
    NamesFit fits (object shape) ↔
      fits shape.names ∧ (∀ field ∈ shape.fields, NamesFit fits field.node) ∧
        ∀ node, shape.additional = some node → NamesFit fits node :=
  ⟨fun | .object names fields additional => ⟨names, fields, additional⟩,
    fun ⟨names, fields, additional⟩ => .object names fields additional⟩

theorem namesFit_nodup_iff : NamesFit List.Nodup schema ↔ schema.NamesDistinct := by
  constructor
  · intro fit
    induction fit with
    | scalar kind => exact .scalar kind
    | array _ ih => exact .array ih
    | object names _ _ fields additional => exact .object names fields additional
  · intro distinct
    induction distinct with
    | scalar kind => exact .scalar kind
    | array _ ih => exact .array ih
    | object names _ _ fields additional => exact .object names fields additional

theorem mem_names_iff_declares {name : String} :
    name ∈ shape.names ↔ shape.declares name = true := by
  simp [Shape.names, Shape.declares, Shape.find?]

theorem namesFit_forall_iff {holds : String → Prop} :
    NamesFit (fun names => ∀ name ∈ names, holds name) schema ↔
      ∀ name, schema.Declares name → holds name := by
  constructor
  · intro fit
    induction fit with
    | scalar kind =>
        intro name declared
        exact absurd declared (not_declares_scalar kind)
    | array _ ih => exact fun name declared => ih name (declares_array_iff.mp declared)
    | object names _ _ fields additional =>
        intro name declared
        cases declared with
        | here declared => exact names name (mem_names_iff_declares.mpr declared)
        | field member inside => exact fields _ member name inside
        | additional admitted inside => exact additional _ admitted name inside
  · intro each
    induction schema using partsInduction with
    | scalar kind => exact .scalar kind
    | array element ih => exact .array (ih fun name declared => each name (.element declared))
    | object shape fields additional =>
        refine .object (fun name member => ?_) (fun field member => ?_) fun node admitted => ?_
        · exact each name (.here (mem_names_iff_declares.mp member))
        · exact fields field member fun name declared => each name (.field member declared)
        · exact additional node admitted fun name declared =>
            each name (.additional admitted declared)

theorem empty_namesFit (rule : NameRule fits) : NamesFit fits (object .empty) :=
  .object rule.nil (by simp [Shape.empty]) (by simp [Shape.empty])

theorem NamesFit.child (fit : NamesFit fits (Schema.object shape))
    (found : shape.child? key = some node) : NamesFit fits node := by
  obtain ⟨_, fields, additional⟩ := namesFit_object_iff.mp fit
  rcases Shape.child?_eq_some found with ⟨field, member, _, rfl⟩ | admitted
  · exact fields field member
  · exact additional node admitted

end Schema

end DocTyping
