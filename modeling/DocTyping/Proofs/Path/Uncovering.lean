import DocTyping.Proofs.Path.Holding

namespace DocTyping

/-!
# Writes beside removals

A removal follows declared fields only, while a write goes through a key that an open
object admits and leaves it declared.  So a write may uncover a removal: the field to be
removed is not declared before, and is so afterwards.  A write that does not uncover a
removal commutes with it, if their paths are apart.
-/

namespace Schema

/-- A write at the first path uncovers the second one: both go through a key that an open object
admits without declaring it, and from there the second one follows declared fields. -/
inductive Uncovers : List String → List String → Schema → Prop
  | element {written removed : List String} {element : Schema}
      (inside : Uncovers written removed element) : Uncovers written removed (array element)
  | field {name : String} {written removed : List String} {shape : Shape Schema}
      {field : Field Schema} (declared : shape.find? name = some field)
      (inside : Uncovers written removed field.node) :
      Uncovers (name :: written) (name :: removed) (object shape)
  | key {name : String} {written removed : List String} {shape : Shape Schema} {node : Schema}
      (undeclared : shape.find? name = none) (admitted : shape.additional = some node)
      (held : Holds removed node) : Uncovers (name :: written) (name :: removed) (object shape)
  | onward {name : String} {written removed : List String} {shape : Shape Schema} {node : Schema}
      (undeclared : shape.find? name = none) (admitted : shape.additional = some node)
      (inside : Uncovers written removed node) :
      Uncovers (name :: written) (name :: removed) (object shape)

variable {schema value : Schema} {shape : Shape Schema} {slot : Slot} {name key : String}
  {names written removed rest back : List String}

theorem uncovers_array_iff {element : Schema} :
    Uncovers written removed (array element) ↔ Uncovers written removed element :=
  ⟨fun | .element inside => inside, .element⟩

theorem uncovers_object_iff : Uncovers written (name :: rest) (object shape) ↔
    ∃ back, written = name :: back ∧
      ((∃ field, shape.find? name = some field ∧ Uncovers back rest field.node) ∨
        shape.find? name = none ∧ ∃ node, shape.additional = some node ∧
          (Holds rest node ∨ Uncovers back rest node)) := by
  constructor
  · intro uncovers
    cases uncovers with
    | field declared inside => exact ⟨_, rfl, .inl ⟨_, declared, inside⟩⟩
    | key undeclared admitted held => exact ⟨_, rfl, .inr ⟨undeclared, _, admitted, .inl held⟩⟩
    | onward undeclared admitted inside =>
        exact ⟨_, rfl, .inr ⟨undeclared, _, admitted, .inr inside⟩⟩
  · rintro ⟨back, rfl, ⟨field, declared, inside⟩ | ⟨undeclared, node, admitted, held | inside⟩⟩
    · exact .field declared inside
    · exact .key undeclared admitted held
    · exact .onward undeclared admitted inside

theorem not_uncovers_empty : ¬ Uncovers written removed (object .empty) := by
  intro uncovers
  cases uncovers with
  | field declared _ => contradiction
  | key _ admitted _ => contradiction
  | onward _ admitted _ => contradiction

theorem Uncovers.ne_nil (uncovers : Uncovers written removed schema) : removed ≠ [] := by
  induction uncovers with
  | element _ ih => exact ih
  | _ => exact List.cons_ne_nil _ _

theorem Uncovers.not_holds (uncovers : Uncovers written removed schema) :
    ¬ Holds removed schema := by
  induction uncovers with
  | element _ ih => rwa [holds_array_iff]
  | field declared inside ih =>
      rw [holds_object_iff]
      rintro ⟨field, found, rfl | held⟩
      · exact inside.ne_nil rfl
      · cases declared.symm.trans found
        exact ih held
  | key undeclared _ _ =>
      rw [holds_object_iff]
      rintro ⟨field, found, _⟩
      rw [undeclared] at found
      contradiction
  | onward undeclared _ _ _ =>
      rw [holds_object_iff]
      rintro ⟨field, found, _⟩
      rw [undeclared] at found
      contradiction

/-- After a write that uncovers a removal the removed field is there. -/
theorem Uncovers.holds_setPath (uncovers : Uncovers written removed schema)
    (apart : Apart written removed) : Holds removed (setPath value slot written schema) := by
  induction uncovers with
  | @element written removed element inside ih =>
      obtain ⟨key, back, rfl⟩ := List.exists_cons_of_ne_nil apart.symm.ne_nil
      rw [setPath_array]
      exact .element (ih apart)
  | field declared _ ih =>
      rw [setPath_object]
      refine .onward find?_written ?_
      rw [node_writtenField (child?_of_declared declared)]
      exact ih (apart_cons_iff.mp apart rfl)
  | key undeclared admitted held =>
      rw [setPath_object]
      refine .onward find?_written ?_
      rw [node_writtenField ((child?_of_admitted undeclared).trans admitted)]
      exact held.setPath (apart_cons_iff.mp apart rfl)
  | onward undeclared admitted _ ih =>
      rw [setPath_object]
      refine .onward find?_written ?_
      rw [node_writtenField ((child?_of_admitted undeclared).trans admitted)]
      exact ih (apart_cons_iff.mp apart rfl)

/-! ### A write and a removal -/

section Objects

variable
  (below : ∀ back schema, Apart rest back → ¬ Uncovers rest back schema →
    removePath back (setPath value slot rest schema) =
      setPath value slot rest (removePath back schema))

include below

/-- What is written under a name is removed from alike before and after the write. -/
theorem writtenField_alter (apart : Apart rest back)
    (covered : ¬ Uncovers (name :: rest) (name :: back) (object shape)) :
    { writtenField value slot name rest shape with
        node := removePath back (writtenField value slot name rest shape).node } =
      writtenField value slot name rest (shape.alter name (some ∘ removePath back)) := by
  have altered : (shape.alter name (some ∘ removePath back)).find? name =
      (shape.find? name).map fun field => { field with node := removePath back field.node } :=
    Shape.find?_alter_some
  have settled : ∀ node, ¬ Holds back node → ¬ Uncovers rest back node →
      removePath back (setPath value slot rest node) = setPath value slot rest node := by
    intro node free open_
    rw [below back node apart open_, removePath_of_not_holds apart.ne_nil free]
  cases declared : shape.find? name with
  | some field =>
      have onward := below back field.node apart fun uncovers => covered (.field declared uncovers)
      simp [writtenField, Shape.child?, Shape.declared?, Shape.isOptional, declared, altered,
        onward]
  | none =>
      have kept : removePath back (writtenField value slot name rest shape).node =
          (writtenField value slot name rest shape).node := by
        cases admitted : shape.additional with
        | none =>
            have child : shape.child? name = none := (child?_of_admitted declared).trans admitted
            rw [writtenField, child]
            exact settled _ not_holds_empty not_uncovers_empty
        | some node =>
            have child : shape.child? name = some node :=
              (child?_of_admitted declared).trans admitted
            rw [writtenField, child]
            exact settled node (fun held => covered (.key declared admitted held))
              fun uncovers => covered (.onward declared admitted uncovers)
      rw [Shape.alter_of_undeclared declared, kept]

theorem removePath_setPath_object (apart : Apart (name :: rest) removed)
    (covered : ¬ Uncovers (name :: rest) removed (object shape)) :
    removePath removed (setPath value slot (name :: rest) (object shape)) =
      setPath value slot (name :: rest) (removePath removed (object shape)) := by
  obtain ⟨key, back, rfl⟩ := List.exists_cons_of_ne_nil apart.ne_nil
  rw [setPath_object, removePath_object, removePath_object, setPath_object]
  by_cases same : name = key
  · subst same
    have inner := apart_cons_iff.mp apart rfl
    rw [removeBelow_of_ne_nil inner.ne_nil]
    have after : (shape.put (writtenField value slot name rest shape)).alter name
        (some ∘ removePath back) = _ := Shape.alter_put_self
    rw [after, writtenField_alter below inner covered]
    exact congrArg object Shape.put_alter_self.symm
  · have found : (shape.alter key (removeBelow back)).find? name = shape.find? name :=
      Shape.find?_alter_of_ne same
    have written : writtenField value slot name rest (shape.alter key (removeBelow back)) =
        writtenField value slot name rest shape := writtenField_congr found rfl
    rw [written]
    exact congrArg object (Shape.alter_put_of_ne same)

end Objects

/-- A write and a removal commute at paths that are apart, unless the write uncovers the removal. -/
theorem removePath_setPath (apart : Apart written removed)
    (covered : ¬ Uncovers written removed schema) :
    removePath removed (setPath value slot written schema) =
      setPath value slot written (removePath removed schema) := by
  induction written generalizing removed schema with
  | nil => exact absurd List.nil_prefix apart.1
  | cons name rest ih =>
      obtain ⟨key, back, rfl⟩ := List.exists_cons_of_ne_nil apart.ne_nil
      have below := fun back schema apart covered => @ih schema back apart covered
      induction schema using partsInduction with
      | scalar kind =>
          rw [removePath_scalar, setPath_scalar,
            removePath_setPath_object below apart not_uncovers_empty,
            removePath_of_not_holds (List.cons_ne_nil _ _) not_holds_empty]
      | array element inside =>
          rw [setPath_array, removePath_array, removePath_array, setPath_array,
            inside fun uncovers => covered (.element uncovers)]
      | object shape _ _ => exact removePath_setPath_object below apart covered

/-! ### What is uncovered later on -/

/-- A write uncovers after a removal what it uncovers before, if the removals are apart. -/
theorem uncovers_removePath_iff (apart : Apart names removed) :
    Uncovers written removed (removePath names schema) ↔ Uncovers written removed schema := by
  induction names generalizing written removed schema with
  | nil => rfl
  | cons key back ih =>
      obtain ⟨name, rest, rfl⟩ := List.exists_cons_of_ne_nil apart.ne_nil
      induction schema using partsInduction generalizing written with
      | scalar kind => rw [removePath_scalar]
      | array element inside =>
          rw [removePath_array, uncovers_array_iff, uncovers_array_iff, inside]
      | object shape _ _ =>
          rw [removePath_object, uncovers_object_iff, uncovers_object_iff]
          refine exists_congr fun onward => and_congr_right fun _ => ?_
          by_cases same : key = name
          · subst same
            have inner := apart_cons_iff.mp apart rfl
            rw [removeBelow_of_ne_nil inner.symm.ne_nil, Shape.find?_alter_some]
            cases declared : shape.find? key with
            | none => simp [Shape.alter]
            | some field => simp [ih inner]
          · rw [Shape.find?_alter_of_ne (Ne.symm same)]
            rfl

theorem Uncovers.of_child
    (inside : Uncovers written removed ((shape.child? name).getD (object .empty))) :
    Uncovers (name :: written) (name :: removed) (object shape) := by
  cases declared : shape.find? name with
  | some field =>
      rw [child?_of_declared declared] at inside
      exact .field declared inside
  | none =>
      rw [child?_of_admitted declared] at inside
      cases admitted : shape.additional with
      | none =>
          rw [admitted] at inside
          exact absurd inside not_uncovers_empty
      | some node =>
          rw [admitted] at inside
          exact .onward declared admitted inside

theorem Uncovers.of_setPath_object
    (below : ∀ written removed schema, Apart rest removed →
      Uncovers written removed (setPath value slot rest schema) →
        Uncovers written removed schema ∨ Uncovers rest removed schema)
    (apart : Apart (name :: rest) removed)
    (uncovers : Uncovers written removed (setPath value slot (name :: rest) (object shape))) :
    Uncovers written removed (object shape) ∨ Uncovers (name :: rest) removed (object shape) := by
  obtain ⟨key, back, rfl⟩ := List.exists_cons_of_ne_nil apart.ne_nil
  rw [setPath_object, uncovers_object_iff] at uncovers
  obtain ⟨onward, rfl, uncovers⟩ := uncovers
  by_cases same : name = key
  · subst same
    rw [find?_written] at uncovers
    rcases uncovers with ⟨_, ⟨⟩, inside⟩ | ⟨undeclared, _⟩
    · exact (below _ _ _ (apart_cons_iff.mp apart rfl) inside).imp .of_child .of_child
    · contradiction
  · rw [find?_written_of_ne same] at uncovers
    exact .inl (uncovers_object_iff.mpr ⟨onward, rfl, uncovers⟩)

/-- What a write uncovers after another write, one of the two uncovers before. -/
theorem Uncovers.of_setPath (apart : Apart names removed)
    (uncovers : Uncovers written removed (setPath value slot names schema)) :
    Uncovers written removed schema ∨ Uncovers names removed schema := by
  induction names generalizing written removed schema with
  | nil => exact absurd List.nil_prefix apart.1
  | cons key back ih =>
      have below := fun written removed schema apart uncovers =>
        @ih schema written removed apart uncovers
      induction schema using partsInduction generalizing written removed with
      | scalar kind =>
          rw [setPath_scalar] at uncovers
          exact (Uncovers.of_setPath_object below apart uncovers).elim
            (absurd · not_uncovers_empty) (absurd · not_uncovers_empty)
      | array element inside =>
          rw [setPath_array, uncovers_array_iff] at uncovers
          exact (inside apart uncovers).imp .element .element
      | object shape _ _ => exact Uncovers.of_setPath_object below apart uncovers

/-- A write uncovers a removal itself, or leaves it to be uncovered by those that would do so. -/
theorem Uncovers.setPath (uncovers : Uncovers written removed schema)
    (apart : Apart names removed) :
    Holds removed (setPath value slot names schema) ∨
      Uncovers written removed (setPath value slot names schema) := by
  obtain ⟨key, back, rfl⟩ := List.exists_cons_of_ne_nil apart.symm.ne_nil
  induction uncovers generalizing key back with
  | element _ ih =>
      rw [setPath_array]
      exact (ih key back apart).imp .element .element
  | @field name written removed shape field declared inside ih =>
      rw [setPath_object]
      by_cases same : key = name
      · subst same
        have inner := apart_cons_iff.mp apart rfl
        obtain ⟨next, later, rfl⟩ := List.exists_cons_of_ne_nil inner.symm.ne_nil
        have below := ih next later inner
        rw [← node_writtenField (child?_of_declared declared)] at below
        exact below.imp (.onward find?_written) (.field find?_written)
      · exact .inr (.field ((find?_written_of_ne same).trans declared) inside)
  | @key name written removed shape node undeclared admitted held =>
      rw [setPath_object]
      by_cases same : key = name
      · subst same
        have below : Holds removed (Schema.setPath value slot back node) :=
          held.setPath (apart_cons_iff.mp apart rfl)
        rw [← node_writtenField ((child?_of_admitted undeclared).trans admitted)] at below
        exact .inl (.onward find?_written below)
      · exact .inr (.key ((find?_written_of_ne same).trans undeclared) admitted held)
  | @onward name written removed shape node undeclared admitted inside ih =>
      rw [setPath_object]
      by_cases same : key = name
      · subst same
        have inner := apart_cons_iff.mp apart rfl
        obtain ⟨next, later, rfl⟩ := List.exists_cons_of_ne_nil inner.symm.ne_nil
        have below := ih next later inner
        rw [← node_writtenField ((child?_of_admitted undeclared).trans admitted)] at below
        exact below.imp (.onward find?_written) (.field find?_written)
      · exact .inr (.onward ((find?_written_of_ne same).trans undeclared) admitted inside)

/-! ### A write before several removals -/

theorem removeEach_setPath {paths : List (List String)} (removals : paths.Pairwise Apart)
    (apart : ∀ removed ∈ paths, Apart written removed)
    (covered : ∀ removed ∈ paths, ¬ Uncovers written removed schema) :
    removeEach paths (setPath value slot written schema) =
      setPath value slot written (removeEach paths schema) := by
  induction paths generalizing schema with
  | nil => rfl
  | cons first rest ih =>
      obtain ⟨head, tail⟩ := List.forall_mem_cons.mp apart
      obtain ⟨here, later⟩ := List.forall_mem_cons.mp covered
      have others := (List.pairwise_cons.mp removals).1
      rw [removeEach_cons, removeEach_cons, removePath_setPath head here]
      refine ih removals.of_cons tail fun removed member uncovers => ?_
      exact later removed member ((uncovers_removePath_iff (others removed member)).mp uncovers)

end Schema

end DocTyping
