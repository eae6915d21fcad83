import DocTyping.Proofs.Literal.Unification

namespace DocTyping

/-!
# Laws of the common schema

`Schema.unify` is idempotent, commutative and associative up to equality, among
schemas that declare no name twice.  The shortcut for equal objects keeps what a
merge drops: open objects and fields that admit null.  But a merged object has
neither, and for such objects the shortcut makes no difference; so a law comes
down to the fields that both sides have under each name.
-/

/-- An object as merging makes them: closed, and without fields that admit null. -/
structure Shape.Plain (shape : Shape Schema) : Prop where
  closed : shape.additional = none
  fields : ∀ name, ∀ field ∈ shape.find? name, field.nullable = false

namespace Schema

variable {left right : Schema} {one other : Shape Schema} {name : String}
  {here there : Option (Field Schema)}

theorem nullable_of_mem_mergedLookup {field : Field Schema}
    (merged : field ∈ mergedLookup name here there) : field.nullable = false := by
  cases here with
  | none =>
      cases there with
      | none => contradiction
      | some => cases merged; rfl
  | some =>
      cases there with
      | none => cases merged; rfl
      | some => cases merged; rfl

theorem unifyShapes_plain : (unifyShapes one other).Plain := by
  refine ⟨additional_unifyShapes, fun name field found => ?_⟩
  rw [find?_unifyShapes] at found
  exact nullable_of_mem_mergedLookup found

theorem plain_of_matches (alike : one.Matches other) (plain : other.Plain) : one.Plain := by
  refine ⟨?_, fun name field found => ?_⟩
  · rcases rel_cases alike.additional with ⟨closed, _⟩ | ⟨_, _, _, admitted, _⟩
    · exact closed
    · rw [plain.closed] at admitted
      contradiction
  · rcases rel_cases (alike.fields name) with ⟨absent, _⟩ | ⟨_, counterpart, stated, held, same⟩
    · rw [absent] at found
      contradiction
    · cases stated.symm.trans found
      exact same.nullable.trans (plain.fields name counterpart held)

theorem equivalent_of_lookups (distinct : one.names.Nodup) (otherDistinct : other.names.Nodup)
    (closed : one.additional = none) (otherClosed : other.additional = none)
    (each : ∀ name, Option.Rel Field.Matches (one.find? name) (other.find? name)) :
    (object one).equivalent (object other) = true := by
  refine (equivalent_object_iff distinct otherDistinct).mpr ⟨each, ?_⟩
  rw [closed, otherClosed]
  exact .none

theorem matches_mergedField {name : String} {optional otherOptional : Bool}
    (same : left.equivalent right = true) (flags : optional = otherOptional) :
    (mergedField name left optional).Matches (mergedField name right otherOptional) :=
  ⟨flags, rfl, same⟩

/-- Where one of two objects is plain, they may be merged even if they are equal. -/
theorem unify_object_of_plain (distinct : (object one).NamesDistinct)
    (otherDistinct : (object other).NamesDistinct) (plain : one.Plain ∨ other.Plain) :
    ((object one).unify (object other)).Same (object (unifyShapes one other)) := by
  have merged := unifyShapes_namesDistinct distinct otherDistinct
  refine ⟨unify_namesDistinct distinct otherDistinct, merged, ?_⟩
  obtain ⟨names, fields, _⟩ := namesDistinct_object_iff.mp distinct
  obtain ⟨otherNames, otherFields, _⟩ := namesDistinct_object_iff.mp otherDistinct
  by_cases same : (object one).equivalent (object other) = true
  · have alike := (equivalent_object_iff names otherNames).mp same
    have onePlain : one.Plain := plain.elim id (plain_of_matches alike)
    rw [unify_of_equivalent same]
    refine equivalent_of_lookups names (nodup_unifyShapes names otherNames) onePlain.closed
      additional_unifyShapes fun name => ?_
    rw [find?_unifyShapes]
    rcases rel_cases (alike.fields name) with ⟨absent, missing⟩ | ⟨field, counterpart, found, held,
      same⟩
    · rw [absent, missing]
      exact .none
    · rw [found, held]
      refine .some ⟨?_, onePlain.fields name field found, ?_⟩
      · simp [mergedField, same.optional]
      · simp only [mergedField, unify_of_equivalent same.node]
        exact equivalent_refl (fields field (Shape.mem_of_find? found))
  · rw [unify_object_of_ne same]
    exact equivalent_refl merged

theorem eq_of_scalar_equivalent {kind : ScalarKind}
    (same : (scalar kind).equivalent right = true) : right = scalar kind := by
  cases right with
  | scalar other =>
      simp only [equivalent, beq_iff_eq] at same
      rw [same]
  | _ => simp [equivalent] at same

theorem exists_array_of_equivalent (same : (array left).equivalent right = true) :
    ∃ element, right = array element ∧ left.equivalent element = true := by
  cases right with
  | array element =>
      rw [equivalent] at same
      exact ⟨element, rfl, same⟩
  | _ => simp [equivalent] at same

theorem exists_object_of_equivalent (distinct : (object one).NamesDistinct)
    (rightDistinct : right.NamesDistinct) (same : (object one).equivalent right = true) :
    ∃ shape, right = object shape ∧ one.Matches shape := by
  cases right with
  | object shape =>
      have names := (namesDistinct_object_iff.mp distinct).1
      have rightNames := (namesDistinct_object_iff.mp rightDistinct).1
      exact ⟨shape, rfl, (equivalent_object_iff names rightNames).mp same⟩
  | _ => simp [equivalent] at same

theorem unifyShapes_equivalent {third fourth : Shape Schema}
    (distinct : (object one).NamesDistinct) (otherDistinct : (object other).NamesDistinct)
    (thirdDistinct : (object third).NamesDistinct) (fourthDistinct : (object fourth).NamesDistinct)
    (each : ∀ name, Option.Rel Field.Matches
      (mergedLookup name (one.find? name) (other.find? name))
      (mergedLookup name (third.find? name) (fourth.find? name))) :
    (object (unifyShapes one other)).equivalent (object (unifyShapes third fourth)) = true := by
  have names := (namesDistinct_object_iff.mp (unifyShapes_namesDistinct distinct otherDistinct)).1
  have otherNames :=
    (namesDistinct_object_iff.mp (unifyShapes_namesDistinct thirdDistinct fourthDistinct)).1
  refine equivalent_of_lookups names otherNames additional_unifyShapes additional_unifyShapes ?_
  intro name
  rw [find?_unifyShapes, find?_unifyShapes]
  exact each name

theorem mergedLookup_congr {here' there' : Option (Field Schema)}
    (left : Option.Rel Field.Matches here here') (right : Option.Rel Field.Matches there there')
    (both : ∀ field ∈ here, ∀ field' ∈ here', ∀ counterpart ∈ there, ∀ counterpart' ∈ there',
      field.node.equivalent field'.node = true →
        counterpart.node.equivalent counterpart'.node = true →
          (field.node.unify counterpart.node).equivalent
            (field'.node.unify counterpart'.node) = true) :
    Option.Rel Field.Matches (mergedLookup name here there) (mergedLookup name here' there') := by
  cases left with
  | none =>
      cases right with
      | none => exact .none
      | some same => exact .some (matches_mergedField same.node rfl)
  | some same =>
      cases right with
      | none => exact .some (matches_mergedField same.node rfl)
      | some alike =>
          refine .some (matches_mergedField ?_ ?_)
          · exact both _ rfl _ rfl _ rfl _ rfl same.node alike.node
          · rw [same.optional, alike.optional]

theorem mergedLookup_comm (distinct : LookupDistinct here) (otherDistinct : LookupDistinct there)
    (both : ∀ field ∈ here, ∀ counterpart ∈ there, (field.node.unify counterpart.node).equivalent
      (counterpart.node.unify field.node) = true) :
    Option.Rel Field.Matches (mergedLookup name here there) (mergedLookup name there here) := by
  cases here with
  | none =>
      cases there with
      | none => exact .none
      | some counterpart =>
          exact .some (matches_mergedField (equivalent_refl (otherDistinct counterpart rfl)) rfl)
  | some field =>
      cases there with
      | none => exact .some (matches_mergedField (equivalent_refl (distinct field rfl)) rfl)
      | some counterpart =>
          exact .some
            (matches_mergedField (both field rfl counterpart rfl) (Bool.or_comm _ _))

theorem mergedLookup_absorb (distinct : LookupDistinct here) (otherDistinct : LookupDistinct there)
    (both : ∀ field ∈ here, ∀ counterpart ∈ there,
      (field.node.unify (field.node.unify counterpart.node)).equivalent
        (field.node.unify counterpart.node) = true) :
    Option.Rel Field.Matches (mergedLookup name here (mergedLookup name here there))
      (mergedLookup name here there) := by
  cases here with
  | none =>
      cases there with
      | none => exact .none
      | some counterpart =>
          exact .some (matches_mergedField (equivalent_refl (otherDistinct counterpart rfl)) rfl)
  | some field =>
      cases there with
      | none =>
          have inside := equivalent_refl (distinct field rfl)
          refine .some (matches_mergedField ?_ (Bool.or_true _))
          exact (congrArg (equivalent · field.node) (unify_of_equivalent inside)).trans inside
      | some counterpart =>
          refine .some (matches_mergedField (both field rfl counterpart rfl) ?_)
          exact (Bool.or_assoc _ _ _).symm.trans (congrArg (· || _) (Bool.or_self _))

theorem mergedLookup_assoc {beyond : Option (Field Schema)} (distinct : LookupDistinct here)
    (otherDistinct : LookupDistinct there) (thirdDistinct : LookupDistinct beyond)
    (all : ∀ first ∈ here, ∀ second ∈ there, ∀ third ∈ beyond,
      ((first.node.unify second.node).unify third.node).equivalent
        (first.node.unify (second.node.unify third.node)) = true) :
    Option.Rel Field.Matches (mergedLookup name (mergedLookup name here there) beyond)
      (mergedLookup name here (mergedLookup name there beyond)) := by
  cases here with
  | none =>
      cases there with
      | none =>
          cases beyond with
          | none => exact .none
          | some third =>
              exact .some (matches_mergedField (equivalent_refl (thirdDistinct third rfl)) rfl)
      | some second =>
          have inside := otherDistinct second rfl
          cases beyond with
          | none => exact .some (matches_mergedField (equivalent_refl inside) rfl)
          | some third =>
              have joined := unify_namesDistinct inside (thirdDistinct third rfl)
              exact .some (matches_mergedField (equivalent_refl joined) rfl)
  | some first =>
      have inside := distinct first rfl
      cases there with
      | none =>
          cases beyond with
          | none => exact .some (matches_mergedField (equivalent_refl inside) rfl)
          | some third =>
              have joined := unify_namesDistinct inside (thirdDistinct third rfl)
              refine .some (matches_mergedField (equivalent_refl joined) ?_)
              exact (Bool.or_true _).symm
      | some second =>
          cases beyond with
          | none =>
              have joined := unify_namesDistinct inside (otherDistinct second rfl)
              refine .some (matches_mergedField (equivalent_refl joined) ?_)
              exact (Bool.or_true _).symm
          | some third =>
              refine .some (matches_mergedField (all first rfl second rfl third rfl) ?_)
              exact Bool.or_assoc _ _ _

theorem unify_self (distinct : left.NamesDistinct) : left.unify left = left :=
  unify_of_equivalent (equivalent_refl distinct)

theorem unify_comm (distinct : left.NamesDistinct) (rightDistinct : right.NamesDistinct) :
    (left.unify right).Same (right.unify left) := by
  refine ⟨unify_namesDistinct distinct rightDistinct, unify_namesDistinct rightDistinct distinct, ?_⟩
  induction left, right, distinct, rightDistinct using namesDistinct_pairs with
  | mixed left right distinct rightDistinct different =>
      rw [unify_of_form_ne different, unify_of_form_ne different.symm]
      exact equivalent_refl (.scalar _)
  | scalar left right =>
      rw [unify_scalar, unify_scalar, ScalarKind.join_comm]
      exact equivalent_refl (.scalar _)
  | array left right distinct rightDistinct ih =>
      rw [unify_array, unify_array, equivalent]
      exact ih
  | object one other distinct otherDistinct each =>
      by_cases same : (object one).equivalent (object other) = true
      · have reverse := equivalent_symm distinct otherDistinct same
        rw [unify_of_equivalent same, unify_of_equivalent reverse]
        exact same
      · have reverse := mt (equivalent_symm otherDistinct distinct) same
        rw [unify_object_of_ne same, unify_object_of_ne reverse]
        refine unifyShapes_equivalent distinct otherDistinct otherDistinct distinct fun name => ?_
        exact mergedLookup_comm (lookupDistinct distinct name) (lookupDistinct otherDistinct name)
          (each name)

theorem unify_absorb (distinct : left.NamesDistinct) (rightDistinct : right.NamesDistinct) :
    (left.unify (left.unify right)).Same (left.unify right) := by
  have joined := unify_namesDistinct distinct rightDistinct
  refine ⟨unify_namesDistinct distinct joined, joined, ?_⟩
  clear joined
  induction left, right, distinct, rightDistinct using namesDistinct_pairs with
  | mixed left right distinct rightDistinct different =>
      rw [unify_of_form_ne different, unify_unknown]
      exact equivalent_refl (.scalar _)
  | scalar left right =>
      rw [unify_scalar, unify_scalar, ← ScalarKind.join_assoc, ScalarKind.join_self]
      exact equivalent_refl (.scalar _)
  | array left right distinct rightDistinct ih =>
      rw [unify_array, unify_array, equivalent]
      exact ih
  | object one other distinct otherDistinct each =>
      by_cases same : (object one).equivalent (object other) = true
      · rw [unify_of_equivalent same, unify_self distinct]
        exact equivalent_refl distinct
      · have merged := unifyShapes_namesDistinct distinct otherDistinct
        rw [unify_object_of_ne same]
        refine ((unify_object_of_plain distinct merged (.inr unifyShapes_plain)).trans
          ⟨unifyShapes_namesDistinct distinct merged, merged, ?_⟩).equal
        refine unifyShapes_equivalent distinct merged distinct otherDistinct fun name => ?_
        rw [find?_unifyShapes]
        exact mergedLookup_absorb (lookupDistinct distinct name)
          (lookupDistinct otherDistinct name) (each name)

theorem equivalent_unify {left' right' : Schema} (same : left.Same left')
    (alike : right.Same right') : (left.unify right).equivalent (left'.unify right') = true := by
  obtain ⟨distinct, distinct', same⟩ := same
  obtain ⟨rightDistinct, rightDistinct', alike⟩ := alike
  induction left, right, distinct, rightDistinct using namesDistinct_pairs
    generalizing left' right' with
  | mixed left right distinct rightDistinct different =>
      have different' : left'.form ≠ right'.form := by
        rw [← form_eq_of_equivalent same, ← form_eq_of_equivalent alike]
        exact different
      rw [unify_of_form_ne different, unify_of_form_ne different']
      exact equivalent_refl (.scalar _)
  | scalar left right =>
      obtain rfl := eq_of_scalar_equivalent same
      obtain rfl := eq_of_scalar_equivalent alike
      exact equivalent_refl (unify_namesDistinct (.scalar _) (.scalar _))
  | array left right distinct rightDistinct ih =>
      obtain ⟨element, rfl, inside⟩ := exists_array_of_equivalent same
      obtain ⟨otherElement, rfl, otherInside⟩ := exists_array_of_equivalent alike
      rw [unify_array, unify_array, equivalent]
      exact ih (namesDistinct_array_iff.mp distinct') inside
        (namesDistinct_array_iff.mp rightDistinct') otherInside
  | object one other distinct otherDistinct each =>
      obtain ⟨one', rfl, oneMatches⟩ := exists_object_of_equivalent distinct distinct' same
      obtain ⟨other', rfl, otherMatches⟩ :=
        exists_object_of_equivalent otherDistinct rightDistinct' alike
      have first : (object one).Same (object one') := ⟨distinct, distinct', same⟩
      have second : (object other).Same (object other') := ⟨otherDistinct, rightDistinct', alike⟩
      by_cases equal : (object one).equivalent (object other) = true
      · have both : (object one).Same (object other) := ⟨distinct, otherDistinct, equal⟩
        have equal' := ((first.symm.trans both).trans second).equal
        rw [unify_of_equivalent equal, unify_of_equivalent equal']
        exact same
      · have unequal' : ¬ (object one').equivalent (object other') = true := by
          intro equal'
          have both : (object one').Same (object other') := ⟨distinct', rightDistinct', equal'⟩
          exact equal ((first.trans both).trans second.symm).equal
        rw [unify_object_of_ne equal, unify_object_of_ne unequal']
        refine unifyShapes_equivalent distinct otherDistinct distinct' rightDistinct' fun name => ?_
        refine mergedLookup_congr (oneMatches.fields name) (otherMatches.fields name) ?_
        intro field found field' found' counterpart held counterpart' held' nodes otherNodes
        exact each name field found counterpart held
          (lookupDistinct distinct' name field' found') nodes
          (lookupDistinct rightDistinct' name counterpart' held') otherNodes

theorem Same.unify {left' right' : Schema} (same : left.Same left') (alike : right.Same right') :
    (left.unify right).Same (left'.unify right') :=
  ⟨unify_namesDistinct same.distinct alike.distinct,
    unify_namesDistinct same.otherDistinct alike.otherDistinct, equivalent_unify same alike⟩

/-- Schemas of different forms have nothing in common, in whatever order they are taken. -/
theorem unify_assoc_of_form_ne {third : Schema}
    (different : left.form ≠ right.form ∨ right.form ≠ third.form) :
    (left.unify right).unify third = left.unify (right.unify third) := by
  by_cases same : left.form = right.form
  · have apart : right.form ≠ third.form := different.resolve_left (absurd same)
    have joined : (left.unify right).form ≠ third.form := by
      rw [unify_form same, same]
      exact apart
    rw [unify_of_form_ne joined, unify_of_form_ne apart, unify_unknown]
  · rw [unify_of_form_ne same, unknown_unify]
    by_cases alike : right.form = third.form
    · have joined : left.form ≠ (right.unify third).form := by
        rw [unify_form alike]
        exact same
      rw [unify_of_form_ne joined]
    · rw [unify_of_form_ne alike, unify_unknown]

/-- Two equal schemas may be taken together before or after a third one. -/
theorem unify_assoc_of_left {third : Schema} (same : left.Same right)
    (thirdDistinct : third.NamesDistinct) :
    ((left.unify right).unify third).Same (left.unify (right.unify third)) := by
  rw [unify_of_equivalent same.equal]
  calc
    Same (left.unify third) (left.unify (left.unify third)) :=
      (unify_absorb same.distinct thirdDistinct).symm
    Same _ (left.unify (right.unify third)) :=
      (Same.refl same.distinct).unify (same.unify (.refl thirdDistinct))

theorem unify_assoc_of_right {third : Schema} (distinct : left.NamesDistinct)
    (same : right.Same third) :
    ((left.unify right).unify third).Same (left.unify (right.unify third)) := by
  rw [unify_of_equivalent same.equal]
  calc
    Same ((left.unify right).unify third) ((right.unify left).unify right) :=
      (unify_comm distinct same.distinct).unify same.symm
    Same _ (right.unify (right.unify left)) :=
      unify_comm (unify_namesDistinct same.distinct distinct) same.distinct
    Same _ (right.unify left) := unify_absorb same.distinct distinct
    Same _ (left.unify right) := unify_comm same.distinct distinct

/-- Objects that differ are merged, and what was merged once may be merged again. -/
theorem unify_assoc_of_ne {third : Shape Schema} (distinct : (object one).NamesDistinct)
    (otherDistinct : (object other).NamesDistinct) (thirdDistinct : (object third).NamesDistinct)
    (unequal : ¬ (object one).equivalent (object other) = true)
    (unlike : ¬ (object other).equivalent (object third) = true)
    (each : ∀ name, ∀ first ∈ one.find? name, ∀ second ∈ other.find? name,
      ∀ last ∈ third.find? name, ((first.node.unify second.node).unify last.node).equivalent
        (first.node.unify (second.node.unify last.node)) = true) :
    (((object one).unify (object other)).unify (object third)).Same
      ((object one).unify ((object other).unify (object third))) := by
  have before := unifyShapes_namesDistinct distinct otherDistinct
  have after := unifyShapes_namesDistinct otherDistinct thirdDistinct
  rw [unify_object_of_ne unequal, unify_object_of_ne unlike]
  have leftward := unify_object_of_plain before thirdDistinct (.inl unifyShapes_plain)
  have rightward := unify_object_of_plain distinct after (.inr unifyShapes_plain)
  have pointwise : (object (unifyShapes (unifyShapes one other) third)).equivalent
      (object (unifyShapes one (unifyShapes other third))) = true := by
    refine unifyShapes_equivalent before thirdDistinct distinct after fun name => ?_
    rw [find?_unifyShapes, find?_unifyShapes]
    exact mergedLookup_assoc (lookupDistinct distinct name) (lookupDistinct otherDistinct name)
      (lookupDistinct thirdDistinct name) (each name)
  calc
    Same _ (object (unifyShapes (unifyShapes one other) third)) := leftward
    Same _ (object (unifyShapes one (unifyShapes other third))) :=
      ⟨leftward.otherDistinct, rightward.otherDistinct, pointwise⟩
    Same _ _ := rightward.symm

theorem unify_assoc {third : Schema} (distinct : left.NamesDistinct)
    (rightDistinct : right.NamesDistinct) (thirdDistinct : third.NamesDistinct) :
    ((left.unify right).unify third).Same (left.unify (right.unify third)) := by
  have joined := unify_namesDistinct (unify_namesDistinct distinct rightDistinct) thirdDistinct
  induction left, right, distinct, rightDistinct using namesDistinct_pairs generalizing third with
  | mixed left right distinct rightDistinct unlike =>
      exact .of_eq joined (unify_assoc_of_form_ne (.inl unlike))
  | scalar left right =>
      cases third with
      | scalar third =>
          refine .of_eq joined ?_
          simp only [unify_scalar, ScalarKind.join_assoc]
      | _ => exact .of_eq joined (unify_assoc_of_form_ne (.inr (by simp [form])))
  | array left right distinct rightDistinct ih =>
      cases third with
      | array third =>
          simp only [unify_array] at joined ⊢
          exact (ih (namesDistinct_array_iff.mp thirdDistinct)
            (namesDistinct_array_iff.mp joined)).array
      | _ => exact .of_eq joined (unify_assoc_of_form_ne (.inr (by simp [form])))
  | object one other distinct otherDistinct each =>
      cases third with
      | object third =>
          by_cases same : (object one).equivalent (object other) = true
          · exact unify_assoc_of_left ⟨distinct, otherDistinct, same⟩ thirdDistinct
          by_cases alike : (object other).equivalent (object third) = true
          · exact unify_assoc_of_right distinct ⟨otherDistinct, thirdDistinct, alike⟩
          refine unify_assoc_of_ne distinct otherDistinct thirdDistinct same alike ?_
          intro name first found second held last stated
          have firstTwo := unify_namesDistinct (lookupDistinct distinct name first found)
            (lookupDistinct otherDistinct name second held)
          have inside := lookupDistinct thirdDistinct name last stated
          exact (each name first found second held inside
            (unify_namesDistinct firstTwo inside)).equal
      | _ => exact .of_eq joined (unify_assoc_of_form_ne (.inr (by simp [form])))

end Schema

end DocTyping
