import DocTyping.Proofs.Schema.Names
import Mathlib.Data.List.Perm.Subperm

namespace DocTyping

/-!
# Equal schemas

Two objects are equal if they hold equal fields under each name and agree on
undeclared keys.  Among schemas that declare no name twice this is an
equivalence, whatever the order of their fields.
-/

section Pointwise

variable {α : Type} {related swapped first second composed : α → α → Prop}
  {one other third : Option α}

theorem rel_cases {β : Type} {related : α → β → Prop} {other : Option β}
    (pointwise : Option.Rel related one other) :
    (one = none ∧ other = none) ∨
      ∃ left right, one = some left ∧ other = some right ∧ related left right := by
  cases pointwise with
  | none => exact .inl ⟨rfl, rfl⟩
  | some holds => exact .inr ⟨_, _, rfl, rfl, holds⟩

theorem rel_swap
    (swap : ∀ left ∈ one, ∀ right ∈ other, related left right → swapped right left)
    (pointwise : Option.Rel related one other) : Option.Rel swapped other one := by
  cases pointwise with
  | none => exact .none
  | some holds => exact .some (swap _ rfl _ rfl holds)

theorem rel_comp
    (compose : ∀ left ∈ one, ∀ middle ∈ other, ∀ right ∈ third,
      first left middle → second middle right → composed left right)
    (before : Option.Rel first one other) (after : Option.Rel second other third) :
    Option.Rel composed one third := by
  cases before with
  | none =>
      cases after with
      | none => exact .none
  | some holds =>
      cases after with
      | some later => exact .some (compose _ rfl _ rfl _ rfl holds later)

end Pointwise

/-- Fields with equal nodes and the same flags. -/
structure Field.Matches (left right : Field Schema) : Prop where
  optional : left.optional = right.optional
  nullable : left.nullable = right.nullable
  node : left.node.equivalent right.node = true

/-- Objects with equal fields under each name, and equal types of undeclared keys. -/
structure Shape.Matches (left right : Shape Schema) : Prop where
  fields : ∀ name, Option.Rel Field.Matches (left.find? name) (right.find? name)
  additional : Option.Rel (fun left right => left.equivalent right = true)
    left.additional right.additional

namespace Shape

variable {α : Type} {shape : Shape α} {field : Field α} {name : String}

theorem mem_of_find? (found : shape.find? name = some field) : field ∈ shape.fields :=
  List.mem_of_find?_eq_some found

theorem name_of_find? (found : shape.find? name = some field) : field.name = name := by
  simpa using List.find?_some found

theorem find?_eq_none_iff : shape.find? name = none ↔ name ∉ shape.names := by
  simp [find?, names]

theorem mem_names_of_find? (found : shape.find? name = some field) : name ∈ shape.names := by
  rw [← name_of_find? found]
  exact List.mem_map_of_mem (mem_of_find? found)

end Shape

namespace Schema

variable {left right middle : Schema} {one other : Shape Schema} {fields : List (Field Schema)}

theorem equivalentField_iff {field : Field Schema} :
    equivalentField field other = true ↔
      ∃ found, other.find? field.name = some found ∧ field.Matches found := by
  obtain ⟨name, node, optional, nullable⟩ := field
  unfold equivalentField
  cases found : other.find? name with
  | none => simp
  | some held =>
      simp only [Bool.and_eq_true, beq_iff_eq, Option.some.injEq, exists_eq_left']
      exact ⟨fun ⟨⟨optional, nullable⟩, node⟩ => ⟨optional, nullable, node⟩,
        fun ⟨optional, nullable, node⟩ => ⟨⟨optional, nullable⟩, node⟩⟩

theorem equivalentFields_iff :
    equivalentFields fields other = true ↔
      ∀ field ∈ fields, ∃ found, other.find? field.name = some found ∧ field.Matches found := by
  induction fields with
  | nil => simp [equivalentFields]
  | cons field rest ih =>
      rw [equivalentFields, Bool.and_eq_true, equivalentField_iff, ih, List.forall_mem_cons]

theorem equivalentAdditional_iff {one other : Option Schema} :
    equivalentAdditional one other = true ↔
      Option.Rel (fun left right => left.equivalent right = true) one other := by
  cases one with
  | none => cases other <;> simp [equivalentAdditional]
  | some left => cases other <;> simp [equivalentAdditional]

/-- Equality of objects does not depend on the order of their fields. -/
theorem equivalent_object_iff (distinct : one.names.Nodup) (otherDistinct : other.names.Nodup) :
    (object one).equivalent (object other) = true ↔ one.Matches other := by
  have unfolded : (object one).equivalent (object other) = true ↔
      one.names.length = other.names.length ∧
        (∀ field ∈ one.fields, ∃ found, other.find? field.name = some found ∧
          field.Matches found) ∧
        Option.Rel (fun left right => left.equivalent right = true)
          one.additional other.additional := by
    rw [equivalent, equivalentShapes, Bool.and_eq_true, Bool.and_eq_true, equivalentFields_iff,
      equivalentAdditional_iff, and_assoc]
    simp [Shape.names]
  rw [unfolded]
  constructor
  · rintro ⟨sameLength, each, additional⟩
    have inside : one.names ⊆ other.names := by
      intro name member
      obtain ⟨field, stated, rfl⟩ := List.mem_map.mp member
      obtain ⟨found, held, _⟩ := each field stated
      exact Shape.mem_names_of_find? held
    -- As many names, none of them twice: the other side has no further ones.
    have same : one.names.Perm other.names :=
      (List.subperm_of_subset distinct inside).perm_of_length_le
        (Nat.le_of_eq sameLength.symm)
    refine ⟨fun name => ?_, additional⟩
    cases found : one.find? name with
    | none =>
        have absent := mt same.mem_iff.mpr (Shape.find?_eq_none_iff.mp found)
        rw [Shape.find?_eq_none_iff.mpr absent]
        exact .none
    | some field =>
        obtain ⟨counterpart, held, alike⟩ := each field (Shape.mem_of_find? found)
        rw [Shape.name_of_find? found] at held
        rw [held]
        exact .some alike
  · rintro ⟨each, additional⟩
    have sameNames : ∀ name, name ∈ one.names ↔ name ∈ other.names := by
      intro name
      rw [← not_iff_not, ← Shape.find?_eq_none_iff, ← Shape.find?_eq_none_iff]
      rcases rel_cases (each name) with ⟨absent, missing⟩ | ⟨_, _, found, held, _⟩
      · simp [absent, missing]
      · simp [found, held]
    refine ⟨((List.perm_ext_iff_of_nodup distinct otherDistinct).mpr sameNames).length_eq,
      fun field member => ?_, additional⟩
    rcases rel_cases (each field.name) with ⟨absent, _⟩ | ⟨_, found, stated, held, alike⟩
    · rw [Shape.find?_of_mem distinct member] at absent
      contradiction
    · cases (Shape.find?_of_mem distinct member).symm.trans stated
      exact ⟨found, held, alike⟩

theorem equivalent_refl (distinct : left.NamesDistinct) : left.equivalent left = true := by
  induction distinct with
  | scalar kind => simp [equivalent]
  | array _ ih => simpa [equivalent] using ih
  | @object shape distinct _ _ each additional =>
      refine (equivalent_object_iff distinct distinct).mpr ⟨fun name => ?_, ?_⟩
      · cases found : shape.find? name with
        | none => exact .none
        | some field => exact .some ⟨rfl, rfl, each field (Shape.mem_of_find? found)⟩
      · cases admitted : shape.additional with
        | none => exact .none
        | some node => exact .some (additional node admitted)

theorem equivalent_symm (distinct : left.NamesDistinct) (rightDistinct : right.NamesDistinct)
    (same : left.equivalent right = true) : right.equivalent left = true := by
  induction distinct generalizing right with
  | scalar kind =>
      cases right with
      | scalar other =>
          simp only [equivalent, beq_iff_eq] at same ⊢
          exact same.symm
      | _ => simp [equivalent] at same
  | array _ ih =>
      cases right with
      | array element =>
          rw [equivalent] at same ⊢
          exact ih (namesDistinct_array_iff.mp rightDistinct) same
      | _ => simp [equivalent] at same
  | object distinct _ _ each additional =>
      cases right with
      | object other =>
          obtain ⟨otherDistinct, fields, open_⟩ := namesDistinct_object_iff.mp rightDistinct
          have alike := (equivalent_object_iff distinct otherDistinct).mp same
          refine (equivalent_object_iff otherDistinct distinct).mpr ⟨fun name => ?_, ?_⟩
          · refine rel_swap (fun field found counterpart held alike => ?_) (alike.fields name)
            exact ⟨alike.optional.symm, alike.nullable.symm,
              each field (Shape.mem_of_find? found)
                (fields counterpart (Shape.mem_of_find? held)) alike.node⟩
          · exact rel_swap (fun node admitted counterpart held same =>
              additional node admitted (open_ counterpart held) same) alike.additional
      | _ => simp [equivalent] at same

theorem equivalent_trans (distinct : left.NamesDistinct) (middleDistinct : middle.NamesDistinct)
    (rightDistinct : right.NamesDistinct) (before : left.equivalent middle = true)
    (after : middle.equivalent right = true) : left.equivalent right = true := by
  induction distinct generalizing middle right with
  | scalar kind =>
      cases middle with
      | scalar other =>
          simp only [equivalent, beq_iff_eq] at before
          exact before ▸ after
      | _ => simp [equivalent] at before
  | array _ ih =>
      cases middle with
      | array element =>
          cases right with
          | array last =>
              rw [equivalent] at before after ⊢
              exact ih (namesDistinct_array_iff.mp middleDistinct)
                (namesDistinct_array_iff.mp rightDistinct) before after
          | _ => simp [equivalent] at after
      | _ => simp [equivalent] at before
  | object distinct _ _ each additional =>
      cases middle with
      | object other =>
          cases right with
          | object third =>
              obtain ⟨otherDistinct, fields, open_⟩ := namesDistinct_object_iff.mp middleDistinct
              obtain ⟨thirdDistinct, lastFields, lastOpen⟩ :=
                namesDistinct_object_iff.mp rightDistinct
              have first := (equivalent_object_iff distinct otherDistinct).mp before
              have second := (equivalent_object_iff otherDistinct thirdDistinct).mp after
              refine (equivalent_object_iff distinct thirdDistinct).mpr ⟨fun name => ?_, ?_⟩
              · refine rel_comp (fun field found counterpart held last stated one two => ?_)
                  (first.fields name) (second.fields name)
                exact ⟨one.optional.trans two.optional, one.nullable.trans two.nullable,
                  each field (Shape.mem_of_find? found)
                    (fields counterpart (Shape.mem_of_find? held))
                    (lastFields last (Shape.mem_of_find? stated)) one.node two.node⟩
              · exact rel_comp (fun node admitted counterpart held last stated one two =>
                  additional node admitted (open_ counterpart held) (lastOpen last stated) one two)
                  first.additional second.additional
          | _ => simp [equivalent] at after
      | _ => simp [equivalent] at before

structure Same (left right : Schema) : Prop where
  distinct : left.NamesDistinct
  otherDistinct : right.NamesDistinct
  equal : left.equivalent right = true

namespace Same

theorem refl (distinct : left.NamesDistinct) : left.Same left :=
  ⟨distinct, distinct, equivalent_refl distinct⟩

theorem of_eq (distinct : left.NamesDistinct) (equal : left = right) : left.Same right :=
  equal ▸ refl distinct

theorem symm (same : left.Same right) : right.Same left :=
  ⟨same.otherDistinct, same.distinct,
    equivalent_symm same.distinct same.otherDistinct same.equal⟩

theorem trans (before : left.Same middle) (after : middle.Same right) : left.Same right :=
  ⟨before.distinct, after.otherDistinct,
    equivalent_trans before.distinct before.otherDistinct after.otherDistinct before.equal
      after.equal⟩

instance : Trans Same Same Same := ⟨trans⟩

theorem array (same : left.Same right) : (array left).Same (array right) :=
  ⟨.array same.distinct, .array same.otherDistinct, by rw [equivalent, same.equal]⟩

end Same

end Schema

end DocTyping
