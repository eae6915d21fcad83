import DocTyping.Literal.Typing
import DocTyping.Proofs.Schema.Equality
import DocTyping.Proofs.Schema.NamesFit

namespace DocTyping

/-!
# The common schema of two schemas

What `Schema.unify` gives, form by form, and what a merged object holds under a
name.  Schemas of different forms have nothing in common; scalars are joined,
arrays are unified by their elements, objects by the fields of each name.
-/

/-- The kind that stands for scalars of either of two kinds. -/
def ScalarKind.join (left right : ScalarKind) : ScalarKind :=
  if left = right then left
  else if left.isNumeric && right.isNumeric then .number else .unknown

namespace ScalarKind

theorem join_self (kind : ScalarKind) : kind.join kind = kind := by simp [join]

theorem join_comm (left right : ScalarKind) : left.join right = right.join left := by
  cases left <;> cases right <;> rfl

theorem join_assoc (first second third : ScalarKind) :
    (first.join second).join third = first.join (second.join third) := by
  have number : number.isNumeric = true := rfl
  have unknown : unknown.isNumeric = false := rfl
  unfold join
  grind

theorem unknown_join (kind : ScalarKind) : unknown.join kind = unknown := by
  cases kind <;> rfl

end ScalarKind

inductive SchemaForm where
  | scalar
  | array
  | object
deriving DecidableEq

namespace Schema

def form : Schema → SchemaForm
  | scalar _ => .scalar
  | array _ => .array
  | object _ => .object

/-- The field of a merged object under a name, given the fields of both sides under it. -/
def mergedLookup (name : String) : Option (Field Schema) → Option (Field Schema) →
    Option (Field Schema)
  | some left, some right =>
      some (mergedField name (left.node.unify right.node) (left.optional || right.optional))
  | some left, none => some (mergedField name left.node true)
  | none, some right => some (mergedField name right.node true)
  | none, none => none

variable {left right : Schema} {one other : Shape Schema} {name : String}

theorem unify_of_equivalent (same : left.equivalent right = true) : left.unify right = left := by
  unfold unify
  exact if_pos same

theorem unify_scalar (left right : ScalarKind) :
    (scalar left).unify (scalar right) = scalar (left.join right) := by
  by_cases same : left = right
  · subst same
    rw [unify_of_equivalent (equivalent_refl (.scalar left)), ScalarKind.join_self]
  · have unequal : ¬ (scalar left == scalar right) = true := by
      intro equal
      exact same (by simpa [BEq.beq, equivalent] using equal)
    rw [unify, if_neg unequal]
    simp only [ScalarKind.join, same, ↓reduceIte]
    split <;> rfl

theorem unify_array (left right : Schema) :
    (array left).unify (array right) = array (left.unify right) := by
  by_cases same : left.equivalent right = true
  · rw [unify_of_equivalent same, unify_of_equivalent (by rw [equivalent, same])]
  · have unequal : ¬ (array left == array right) = true := by
      intro equal
      exact same (by simpa only [BEq.beq, equivalent] using equal)
    rw [unify, if_neg unequal]

theorem unify_object_of_ne (unequal : ¬ (object one).equivalent (object other) = true) :
    (object one).unify (object other) = object (unifyShapes one other) := by
  have different : ¬ (object one == object other) = true := unequal
  rw [unify, if_neg different]

theorem form_eq_of_equivalent (same : left.equivalent right = true) : left.form = right.form := by
  cases left <;> cases right <;> simp_all [equivalent, form]

theorem unify_of_form_ne (different : left.form ≠ right.form) : left.unify right = unknown := by
  have unequal : ¬ (left == right) = true := fun same => different (form_eq_of_equivalent same)
  unfold unify
  rw [if_neg unequal]
  split
  · contradiction
  · contradiction
  · contradiction
  · rfl

theorem unify_form (same : left.form = right.form) : (left.unify right).form = left.form := by
  cases left with
  | scalar kind =>
      cases right with
      | scalar other => rw [unify_scalar]; rfl
      | _ => contradiction
  | array element =>
      cases right with
      | array other => rw [unify_array]; rfl
      | _ => contradiction
  | object one =>
      cases right with
      | object other =>
          by_cases same : (object one).equivalent (object other) = true
          · rw [unify_of_equivalent same]
          · rw [unify_object_of_ne same]
            rfl
      | _ => contradiction

theorem unknown_unify (schema : Schema) : unknown.unify schema = unknown := by
  cases schema with
  | scalar kind => rw [unknown, unify_scalar, ScalarKind.unknown_join]
  | _ => exact unify_of_form_ne (by simp [unknown, form])

theorem unify_unknown (schema : Schema) : schema.unify unknown = unknown := by
  cases schema with
  | scalar kind => rw [unknown, unify_scalar, ScalarKind.join_comm, ScalarKind.unknown_join]
  | _ => exact unify_of_form_ne (by simp [unknown, form])

theorem name_unifyField (field : Field Schema) : (unifyField field other).name = field.name := by
  obtain ⟨name, node, optional, nullable⟩ := field
  unfold unifyField
  split <;> rfl

theorem unifyFields_eq_map (fields : List (Field Schema)) :
    unifyFields fields other = fields.map fun field => unifyField field other := by
  induction fields with
  | nil => rfl
  | cons field rest ih => rw [unifyFields, ih, List.map_cons]

theorem find?_unifyFields (fields : List (Field Schema)) (additional : Option Schema) :
    (unifyFields fields other).find? (fun field => field.name == name) =
      (Shape.find? ⟨fields, additional⟩ name).map fun field => unifyField field other := by
  rw [unifyFields_eq_map, List.find?_map, Shape.find?]
  simp only [Function.comp_def, name_unifyField]

theorem find?_rightOnly (undeclared : one.declares name = false) :
    (rightOnly one other).find? (fun field => field.name == name) =
      (other.find? name).map fun field => mergedField field.name field.node true := by
  rw [rightOnly, List.find?_map, List.find?_filter, Shape.find?]
  congr 1
  refine congrArg (List.find? · other.fields) (funext fun field => ?_)
  by_cases named : field.name = name
  · simp [mergedField, named, undeclared]
  · simp [mergedField, named]

theorem find?_unifyShapes :
    (unifyShapes one other).find? name =
      mergedLookup name (one.find? name) (other.find? name) := by
  obtain ⟨fields, additional⟩ := one
  rw [unifyShapes, Shape.find?, List.find?_append, find?_unifyFields fields additional]
  cases found : Shape.find? ⟨fields, additional⟩ name with
  | some field =>
      have named := Shape.name_of_find? found
      obtain ⟨held, node, optional, nullable⟩ := field
      simp only at named
      subst named
      simp only [Option.map_some, Option.some_or, unifyField]
      cases other.find? held with
      | none => rfl
      | some counterpart => rfl
  | none =>
      have undeclared : Shape.declares ⟨fields, additional⟩ name = false := by
        simp [Shape.declares, found]
      rw [Option.map_none, Option.none_or, find?_rightOnly undeclared]
      cases held : other.find? name with
      | none => rfl
      | some counterpart => simp [mergedLookup, Shape.name_of_find? held]

theorem names_unifyShapes :
    (unifyShapes one other).names =
      one.names ++ other.names.filter fun name => !one.declares name := by
  obtain ⟨fields, additional⟩ := one
  simp only [Shape.names, unifyShapes, unifyFields_eq_map, rightOnly, List.map_append,
    List.map_map, List.filter_map]
  congr 1
  exact List.map_congr_left fun field _ => name_unifyField field

theorem additional_unifyShapes : (unifyShapes one other).additional = none := by
  obtain ⟨fields, additional⟩ := one
  rfl

theorem nodup_unifyShapes (distinct : one.names.Nodup) (otherDistinct : other.names.Nodup) :
    (unifyShapes one other).names.Nodup := by
  rw [names_unifyShapes]
  refine List.nodup_append.mpr ⟨distinct, otherDistinct.filter _, ?_⟩
  rintro name member _ later rfl
  have undeclared : one.find? name = none := by
    simpa [Shape.declares] using (List.mem_filter.mp later).2
  exact Shape.find?_eq_none_iff.mp undeclared member

/-- The field under a name, if there is one, declares no name twice. -/
def LookupDistinct (found : Option (Field Schema)) : Prop :=
  ∀ field ∈ found, field.node.NamesDistinct

theorem lookupDistinct (distinct : (object one).NamesDistinct) (name : String) :
    LookupDistinct (one.find? name) := by
  obtain ⟨_, fields, _⟩ := namesDistinct_object_iff.mp distinct
  exact fun field found => fields field (Shape.mem_of_find? found)

/-- Induction over two schemas: those of different forms are told apart at once, elements are taken
in pairs, and so are the fields under each name. -/
@[elab_as_elim]
theorem namesDistinct_pairs
    {motive : (left right : Schema) → left.NamesDistinct → right.NamesDistinct → Prop}
    (mixed : ∀ left right distinct rightDistinct, left.form ≠ right.form →
      motive left right distinct rightDistinct)
    (scalar : ∀ left right, motive (scalar left) (scalar right) (.scalar left) (.scalar right))
    (array : ∀ left right distinct rightDistinct, motive left right distinct rightDistinct →
      motive (array left) (array right) (.array distinct) (.array rightDistinct))
    (object : ∀ (one other : Shape Schema) (distinct : (object one).NamesDistinct)
      (otherDistinct : (object other).NamesDistinct),
      (∀ name field (found : field ∈ one.find? name) counterpart
          (held : counterpart ∈ other.find? name),
        motive field.node counterpart.node (lookupDistinct distinct name field found)
          (lookupDistinct otherDistinct name counterpart held)) →
      motive (object one) (object other) distinct otherDistinct)
    (left right : Schema) (distinct : left.NamesDistinct) (rightDistinct : right.NamesDistinct) :
    motive left right distinct rightDistinct := by
  induction distinct generalizing right with
  | scalar kind =>
      cases rightDistinct with
      | scalar other => exact scalar kind other
      | _ => exact mixed _ _ _ _ (by simp [form])
  | array inside ih =>
      cases rightDistinct with
      | array otherInside => exact array _ _ _ _ (ih _ otherInside)
      | _ => exact mixed _ _ _ _ (by simp [form])
  | object distinct fields additional each _ =>
      cases rightDistinct with
      | object otherDistinct otherFields otherAdditional =>
          exact object _ _ _ _ fun name field found counterpart held =>
            each field (Shape.mem_of_find? found) counterpart.node _
      | _ => exact mixed _ _ _ _ (by simp [form])

/-- A field of a merged object is one of the left object merged with its counterpart, or has the
type of a field of either object. -/
theorem node_of_mem_unifyShapes {field : Field Schema}
    (member : field ∈ (unifyShapes one other).fields) :
    (∃ held ∈ one.fields, ∃ counterpart ∈ other.fields,
        field.node = held.node.unify counterpart.node) ∨
      (∃ held ∈ one.fields, field.node = held.node) ∨
        ∃ held ∈ other.fields, field.node = held.node := by
  obtain ⟨fields, additional⟩ := one
  rcases List.mem_append.mp member with merged | alone
  · rw [unifyFields_eq_map] at merged
    obtain ⟨⟨name, node, optional, nullable⟩, listed, rfl⟩ := List.mem_map.mp merged
    unfold unifyField
    split
    · rename_i counterpart found
      exact .inl ⟨_, listed, counterpart, Shape.mem_of_find? found, rfl⟩
    · exact .inr (.inl ⟨_, listed, rfl⟩)
  · obtain ⟨held, listed, rfl⟩ := List.mem_map.mp alone
    exact .inr (.inr ⟨held, List.mem_of_mem_filter listed, rfl⟩)

section Names

variable {fits : List String → Prop} (rule : NameRule fits)

include rule

theorem unifyShapes_namesFit_of_each (fit : NamesFit fits (object one))
    (otherFit : NamesFit fits (object other))
    (each : ∀ field ∈ one.fields, ∀ counterpart ∈ other.fields,
      NamesFit fits (field.node.unify counterpart.node)) :
    NamesFit fits (object (unifyShapes one other)) := by
  obtain ⟨names, fields, _⟩ := namesFit_object_iff.mp fit
  obtain ⟨otherNames, otherFields, _⟩ := namesFit_object_iff.mp otherFit
  refine .object ?_ (fun field member => ?_) (by simp [additional_unifyShapes])
  · rw [names_unifyShapes]
    refine rule.union ?_ names (rule.fewer List.filter_sublist otherNames)
    intro name member later
    have undeclared : one.find? name = none := by
      simpa [Shape.declares] using (List.mem_filter.mp later).2
    exact Shape.find?_eq_none_iff.mp undeclared member
  · rcases node_of_mem_unifyShapes member with
      ⟨held, listed, counterpart, found, same⟩ | ⟨held, listed, same⟩ | ⟨held, listed, same⟩
    · rw [same]
      exact each held listed counterpart found
    · rw [same]
      exact fields held listed
    · rw [same]
      exact otherFields held listed

theorem unify_namesFit (fit : left.NamesFit fits) (rightFit : right.NamesFit fits) :
    (left.unify right).NamesFit fits := by
  induction fit generalizing right with
  | scalar kind =>
      cases rightFit with
      | scalar other =>
          rw [unify_scalar]
          exact .scalar _
      | _ =>
          rw [unify_of_form_ne (by simp [form])]
          exact .scalar _
  | array inside ih =>
      cases rightFit with
      | array otherInside =>
          rw [unify_array]
          exact .array (ih otherInside)
      | _ =>
          rw [unify_of_form_ne (by simp [form])]
          exact .scalar _
  | @object one names fields additional each _ =>
      have fit : NamesFit fits (object one) := .object names fields additional
      cases rightFit with
      | @object other otherNames otherFields otherAdditional =>
          by_cases same : (object one).equivalent (object other) = true
          · rw [unify_of_equivalent same]
            exact fit
          · rw [unify_object_of_ne same]
            exact unifyShapes_namesFit_of_each rule fit
              (.object otherNames otherFields otherAdditional) fun field member counterpart found =>
                each field member (otherFields counterpart found)
      | _ =>
          rw [unify_of_form_ne (by simp [form])]
          exact .scalar _

theorem unifyShapes_namesFit (fit : NamesFit fits (object one))
    (otherFit : NamesFit fits (object other)) : NamesFit fits (object (unifyShapes one other)) := by
  obtain ⟨_, fields, _⟩ := namesFit_object_iff.mp fit
  obtain ⟨_, otherFields, _⟩ := namesFit_object_iff.mp otherFit
  exact unifyShapes_namesFit_of_each rule fit otherFit fun field member counterpart found =>
    unify_namesFit rule (fields field member) (otherFields counterpart found)

theorem unifyAll_namesFit {types : List Schema} (each : ∀ type ∈ types, type.NamesFit fits) :
    (unifyAll types).NamesFit fits := by
  cases types with
  | nil => exact .scalar _
  | cons first rest =>
      obtain ⟨head, tail⟩ := List.forall_mem_cons.mp each
      clear each
      rw [unifyAll]
      induction rest generalizing first with
      | nil => exact head
      | cons second later ih =>
          obtain ⟨next, onward⟩ := List.forall_mem_cons.mp tail
          exact ih (first.unify second) (unify_namesFit rule head next) onward

end Names

theorem unify_namesDistinct (distinct : left.NamesDistinct) (rightDistinct : right.NamesDistinct) :
    (left.unify right).NamesDistinct := by
  rw [← namesFit_nodup_iff] at distinct rightDistinct ⊢
  exact unify_namesFit nodup_nameRule distinct rightDistinct

theorem unifyShapes_namesDistinct (distinct : (object one).NamesDistinct)
    (otherDistinct : (object other).NamesDistinct) :
    (object (unifyShapes one other)).NamesDistinct := by
  rw [← namesFit_nodup_iff] at distinct otherDistinct ⊢
  exact unifyShapes_namesFit nodup_nameRule distinct otherDistinct

end Schema

end DocTyping
