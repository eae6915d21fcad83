import DocTyping.Proofs.Path.Uncovering
import DocTyping.Proofs.Reordering.Types
import DocTyping.Proofs.Schema.Reshaping

namespace DocTyping

/-!
# Several writes

What a write leaves does not depend on the order of fields before it.  Two writes commute
up to the order of fields, if their paths are apart, and so the order of any number of
them does not matter.
-/

theorem Shape.find?_put_comm {α : Type} {shape : Shape α} {former latter : Field α}
    (different : former.name ≠ latter.name) (key : String) :
    ((shape.put former).put latter).find? key = ((shape.put latter).put former).find? key := by
  simp only [find?_put]
  by_cases here : former.name = key
  · have other : latter.name ≠ key := fun same => different (here.trans same.symm)
    simp [here, other]
  · simp [here]

theorem Shape.Matches.isOptional_eq {one other : Shape Schema} (alike : one.Matches other)
    (name : String) : one.isOptional name = other.isOptional name := by
  rcases rel_cases (alike.fields name) with ⟨absent, missing⟩ | ⟨_, _, found, held, fields⟩
  · simp [isOptional, absent, missing]
  · simp [isOptional, found, held, fields.optional]

namespace Schema

variable {schema value other left right : Schema} {shape one two : Shape Schema}
  {slot : Slot} {name key : String} {names others rest back : List String}

theorem NamesDistinct.setPath (distinct : schema.NamesDistinct) (inside : value.NamesDistinct) :
    (setPath value slot names schema).NamesDistinct :=
  namesFit_nodup_iff.mp (setPath_namesFit nodup_nameRule (namesFit_nodup_iff.mpr inside)
    (fun name _ => List.nodup_singleton name) (namesFit_nodup_iff.mpr distinct))

theorem empty_namesDistinct : (object .empty).NamesDistinct :=
  namesFit_nodup_iff.mp (empty_namesFit nodup_nameRule)

theorem Same.put {field held : Field Schema} (same : (object one).Same (object two))
    (named : field.name = held.name) (alike : field.Matches held)
    (distinct : (object (one.put field)).NamesDistinct)
    (otherDistinct : (object (two.put held)).NamesDistinct) :
    (object (one.put field)).Same (object (two.put held)) := by
  obtain ⟨_, stated, objects⟩ := same.exists_object
  cases stated
  refine .of_matches distinct otherDistinct ⟨fun key => ?_, objects.additional⟩
  rw [Shape.find?_put, Shape.find?_put, named]
  split
  · exact .some alike
  · exact objects.fields key

theorem Same.child (same : (object one).Same (object two)) (name : String) :
    ((one.child? name).getD (object .empty)).Same ((two.child? name).getD (object .empty)) := by
  rcases rel_cases (same.child?_rel name) with ⟨absent, missing⟩ | ⟨_, _, found, held, children⟩
  · rw [absent, missing]
    exact .refl empty_namesDistinct
  · rw [found, held]
    exact children

theorem setPath_object_same
    (below : ∀ left right, left.Same right →
      (setPath value slot rest left).Same (setPath other slot rest right))
    (values : value.Same other) (same : (object one).Same (object two)) :
    (setPath value slot (name :: rest) (object one)).Same
      (setPath other slot (name :: rest) (object two)) := by
  have distinct : (setPath value slot (name :: rest) (object one)).NamesDistinct :=
    same.distinct.setPath values.distinct
  have otherDistinct : (setPath other slot (name :: rest) (object two)).NamesDistinct :=
    same.otherDistinct.setPath values.otherDistinct
  obtain ⟨_, stated, objects⟩ := same.exists_object
  cases stated
  rw [setPath_object] at distinct otherDistinct ⊢
  rw [setPath_object]
  refine same.put rfl ⟨?_, rfl, (below _ _ (same.child name)).equal⟩ distinct otherDistinct
  simp [writtenField, objects.isOptional_eq name]

theorem setPath_same (values : value.Same other) (same : left.Same right) :
    (setPath value slot names left).Same (setPath other slot names right) := by
  induction names generalizing left right with
  | nil => exact values
  | cons name rest ih =>
      have below := fun left right same => @ih left right same
      induction left using partsInduction generalizing right with
      | scalar kind =>
          rw [eq_of_scalar_equivalent same.equal, setPath_scalar, setPath_scalar]
          exact setPath_object_same below values (.refl empty_namesDistinct)
      | array element inside =>
          obtain ⟨counterpart, rfl, elements⟩ := same.exists_array
          rw [setPath_array, setPath_array]
          exact (inside elements).array
      | object shape _ _ =>
          obtain ⟨counterpart, rfl, _⟩ := same.exists_object
          exact setPath_object_same below values same

theorem Holds.same {left right : Schema} (held : Holds names left) (same : left.Same right) :
    Holds names right := by
  induction held generalizing right with
  | element _ ih =>
      obtain ⟨counterpart, rfl, elements⟩ := same.exists_array
      exact .element (ih elements)
  | last declared =>
      obtain ⟨counterpart, rfl, alike⟩ := same.exists_object
      rcases rel_cases (alike.fields _) with ⟨absent, _⟩ | ⟨_, _, _, found, _⟩
      · rw [absent] at declared
        contradiction
      · exact .last found
  | @onward name rest shape field declared _ ih =>
      obtain ⟨counterpart, rfl, alike⟩ := same.exists_object
      rcases rel_cases (alike.fields name) with ⟨absent, _⟩ | ⟨_, other, stated, found, fields⟩
      · rw [absent] at declared
        contradiction
      · cases stated.symm.trans declared
        have distinct :=
          (namesDistinct_object_iff.mp same.distinct).2.1 _ (Shape.mem_of_find? declared)
        have otherDistinct :=
          (namesDistinct_object_iff.mp same.otherDistinct).2.1 _ (Shape.mem_of_find? found)
        exact .onward found (ih ⟨distinct, otherDistinct, fields.node⟩)

/-! ### Two writes -/

theorem same_of_find?_eq (distinct : (object one).NamesDistinct)
    (otherDistinct : (object two).NamesDistinct) (fields : ∀ key, one.find? key = two.find? key)
    (additional : one.additional = two.additional) : (object one).Same (object two) := by
  obtain ⟨_, stated, alike⟩ := (Same.refl distinct).exists_object
  cases stated
  refine .of_matches distinct otherDistinct ⟨fun key => ?_, ?_⟩
  · rw [← fields key]
    exact alike.fields key
  · rw [← additional]
    exact alike.additional

variable {slot' : Slot}

/-- Two writes that go on below one field leave it with both. -/
theorem put_written_written (filled : rest ≠ []) (onward : back ≠ []) :
    (shape.put (writtenField value slot name rest shape)).put
        (writtenField other slot' name back
          (shape.put (writtenField value slot name rest shape))) =
      shape.put ⟨name, setPath other slot' back
        (setPath value slot rest ((shape.child? name).getD (object .empty))),
        shape.isOptional name, false⟩ := by
  have second : writtenField other slot' name back
      (shape.put (writtenField value slot name rest shape)) =
        ⟨name, setPath other slot' back
          (setPath value slot rest ((shape.child? name).getD (object .empty))),
          shape.isOptional name, false⟩ := by
    simp [writtenField, Shape.child?, Shape.declared?, Shape.isOptional, Shape.find?_put, filled,
      onward]
  rw [second]
  exact Shape.put_put rfl

theorem setPath_comm_object
    (below : ∀ back schema, Apart rest back → schema.NamesDistinct →
      (setPath other slot' back (setPath value slot rest schema)).Same
        (setPath value slot rest (setPath other slot' back schema)))
    (apart : Apart (name :: rest) others) (inside : value.NamesDistinct)
    (otherInside : other.NamesDistinct) (distinct : (object shape).NamesDistinct) :
    (setPath other slot' others (setPath value slot (name :: rest) (object shape))).Same
      (setPath value slot (name :: rest) (setPath other slot' others (object shape))) := by
  have before : (setPath other slot' others
      (setPath value slot (name :: rest) (object shape))).NamesDistinct :=
    (distinct.setPath inside).setPath otherInside
  have after : (setPath value slot (name :: rest)
      (setPath other slot' others (object shape))).NamesDistinct :=
    (distinct.setPath otherInside).setPath inside
  obtain ⟨key, back, rfl⟩ := List.exists_cons_of_ne_nil apart.ne_nil
  simp only [setPath_object] at before after ⊢
  by_cases same : name = key
  · subst same
    have inner := apart_cons_iff.mp apart rfl
    have child := ((Same.refl distinct).child name).distinct
    rw [put_written_written inner.symm.ne_nil inner.ne_nil] at before ⊢
    rw [put_written_written inner.ne_nil inner.symm.ne_nil] at after ⊢
    exact (Same.refl distinct).put rfl ⟨rfl, rfl, (below back _ inner child).equal⟩ before after
  · have first : writtenField other slot' key back
        (shape.put (writtenField value slot name rest shape)) =
          writtenField other slot' key back shape :=
      writtenField_congr (find?_written_of_ne same) rfl
    have second : writtenField value slot name rest
        (shape.put (writtenField other slot' key back shape)) =
          writtenField value slot name rest shape :=
      writtenField_congr (find?_written_of_ne (Ne.symm same)) rfl
    rw [first] at before ⊢
    rw [second] at after ⊢
    exact same_of_find?_eq before after (Shape.find?_put_comm same) rfl

/-- Writes at paths that are apart commute up to the order of fields. -/
theorem setPath_comm (apart : Apart names others) (inside : value.NamesDistinct)
    (otherInside : other.NamesDistinct) (distinct : schema.NamesDistinct) :
    (setPath other slot' others (setPath value slot names schema)).Same
      (setPath value slot names (setPath other slot' others schema)) := by
  induction names generalizing others schema with
  | nil => exact absurd List.nil_prefix apart.1
  | cons name rest ih =>
      obtain ⟨key, back, rfl⟩ := List.exists_cons_of_ne_nil apart.ne_nil
      have below := fun back schema apart distinct => @ih schema back apart distinct
      induction distinct with
      | scalar kind =>
          rw [setPath_scalar, setPath_scalar]
          exact setPath_comm_object below apart inside otherInside empty_namesDistinct
      | array _ elements =>
          simp only [setPath_array]
          exact elements.array
      | object distinct fields additional _ _ =>
          exact setPath_comm_object below apart inside otherInside
            (.object distinct fields additional)

/-! ### Any number of writes -/

def writeEach (writes : List (List String × Schema)) (schema : Schema) : Schema :=
  writes.foldl (fun left write => setPath write.2 {} write.1 left) schema

variable {writes rewrites : List (List String × Schema)}

theorem writeEach_same
    (alike : List.Forall₂ (fun write rewrite => write.1 = rewrite.1 ∧ write.2.Same rewrite.2)
      writes rewrites) (same : left.Same right) :
    (writeEach writes left).Same (writeEach rewrites right) := by
  induction alike generalizing left right with
  | nil => exact same
  | @cons write rewrite _ _ head _ ih =>
      obtain ⟨paths, types⟩ := head
      have step : (setPath write.2 {} write.1 left).Same (setPath rewrite.2 {} rewrite.1 right) :=
        paths ▸ setPath_same types same
      exact ih step

theorem writeEach_refl (inside : ∀ write ∈ writes, write.2.NamesDistinct)
    (same : left.Same right) : (writeEach writes left).Same (writeEach writes right) :=
  writeEach_same (List.forall₂_same.mpr fun write member => ⟨rfl, .refl (inside write member)⟩) same

/-- The order of writes changes nothing but the order of fields. -/
theorem writeEach_perm (perm : writes.Perm rewrites)
    (apart : writes.Pairwise fun write rewrite => Apart write.1 rewrite.1)
    (inside : ∀ write ∈ writes, write.2.NamesDistinct) (distinct : schema.NamesDistinct) :
    (writeEach writes schema).Same (writeEach rewrites schema) := by
  induction perm generalizing schema with
  | nil => exact .refl distinct
  | cons write _ ih =>
      obtain ⟨head, tail⟩ := List.forall_mem_cons.mp inside
      exact ih apart.of_cons tail (distinct.setPath head)
  | swap first second rest =>
      obtain ⟨latter, former, others⟩ : second.2.NamesDistinct ∧ first.2.NamesDistinct ∧
          ∀ write ∈ rest, write.2.NamesDistinct := by
        simpa using inside
      have separate : Apart second.1 first.1 := List.rel_of_pairwise_cons apart List.mem_cons_self
      exact writeEach_refl others (setPath_comm separate latter former distinct)
  | @trans writes between rewrites before after ih again =>
      have apartToo := before.pairwise apart Apart.symm
      have insideToo : ∀ write ∈ between, write.2.NamesDistinct :=
        fun write member => inside write (before.mem_iff.mpr member)
      exact (ih apart inside distinct).trans (again apartToo insideToo distinct)

end Schema

end DocTyping
