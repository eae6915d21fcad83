import DocTyping.Proofs.Expression.DistinctNames
import DocTyping.Proofs.Literal.Semilattice
import DocTyping.Proofs.Reordering.Literals

namespace DocTyping

/-!
# Types up to the order of fields

Whatever is made of types keeps their equality: the type at a path, the common
type of several, the objects laid over each other, and so the type of an
operator's result.
-/

namespace Schema

variable {left right element : Schema} {one other : Shape Schema} {types others : List Schema}

theorem Same.exists_array (same : (Schema.array element).Same right) :
    ∃ counterpart, right = .array counterpart ∧ element.Same counterpart := by
  obtain ⟨counterpart, rfl, equal⟩ := exists_array_of_equivalent same.equal
  exact ⟨counterpart, rfl, namesDistinct_array_iff.mp same.distinct,
    namesDistinct_array_iff.mp same.otherDistinct, equal⟩

theorem Same.exists_object (same : (object one).Same right) :
    ∃ counterpart, right = object counterpart ∧ one.Matches counterpart :=
  exists_object_of_equivalent same.distinct same.otherDistinct same.equal

theorem Same.element?_rel (same : left.Same right) :
    Option.Rel Same left.element? right.element? := by
  cases left with
  | array element =>
      obtain ⟨counterpart, rfl, inside⟩ := same.exists_array
      exact .some inside
  | scalar kind =>
      rw [eq_of_scalar_equivalent same.equal]
      exact .none
  | object shape =>
      obtain ⟨counterpart, rfl, _⟩ := same.exists_object
      exact .none

theorem Same.scalarKind?_eq (same : left.Same right) : left.scalarKind? = right.scalarKind? := by
  cases left with
  | scalar kind => rw [eq_of_scalar_equivalent same.equal]
  | array element =>
      obtain ⟨counterpart, rfl, _⟩ := same.exists_array
      rfl
  | object shape =>
      obtain ⟨counterpart, rfl, _⟩ := same.exists_object
      rfl

theorem Same.child?_rel (same : (object one).Same (object other)) (key : String) :
    Option.Rel Same (one.child? key) (other.child? key) := by
  obtain ⟨_, stated, alike⟩ := same.exists_object
  cases stated
  have equal : Option.Rel (fun left right => left.equivalent right = true)
      (one.child? key) (other.child? key) := by
    unfold Shape.child? Shape.declared?
    rcases rel_cases (alike.fields key) with ⟨absent, missing⟩ | ⟨_, _, found, held, fields⟩
    · rw [absent, missing]
      exact alike.additional
    · rw [found, held]
      exact .some fields.node
  rcases rel_cases equal with ⟨absent, missing⟩ | ⟨node, counterpart, found, held, equal⟩
  · rw [absent, missing]
    exact .none
  · have distinct := child_namesDistinct same.distinct found
    have otherDistinct := child_namesDistinct same.otherDistinct held
    rw [found, held]
    exact .some ⟨distinct, otherDistinct, equal⟩

theorem Same.of_matches (distinct : (object one).NamesDistinct)
    (otherDistinct : (object other).NamesDistinct) (alike : one.Matches other) :
    (object one).Same (object other) := by
  have names := (namesDistinct_object_iff.mp distinct).1
  have otherNames := (namesDistinct_object_iff.mp otherDistinct).1
  exact ⟨distinct, otherDistinct, (equivalent_object_iff names otherNames).mpr alike⟩

theorem unifyAll_same (same : List.Forall₂ Same types others) :
    (unifyAll types).Same (unifyAll others) := by
  cases same with
  | nil => exact .refl (.scalar _)
  | cons head tail => exact List.rel_foldl (fun _ _ before _ _ next => before.unify next) head tail

end Schema

section Walking

variable {placeholders : Bool} {steps rest : List Segment} {here there next goal : Arrival}
  {count : Nat}

/-- Places whose schemas are equal, reached across as many elements. -/
structure Arrival.Alike (here there : Arrival) : Prop where
  node : here.node.Same there.node
  inArray : here.inArray = there.inArray

theorem Move.alike (move : Move placeholders steps here rest next) (alike : here.Alike there) :
    ∃ counterpart, Move placeholders steps there rest counterpart ∧ next.Alike counterpart := by
  obtain ⟨same, inArray⟩ := alike
  cases move with
  | index array =>
      rw [array] at same
      obtain ⟨element, stated, inside⟩ := same.exists_array
      exact ⟨_, .index stated, inside, inArray⟩
  | placeholder allowed array =>
      rw [array] at same
      obtain ⟨element, stated, inside⟩ := same.exists_array
      exact ⟨_, .placeholder allowed stated, inside, rfl⟩
  | skip array =>
      rw [array] at same
      obtain ⟨element, stated, inside⟩ := same.exists_array
      exact ⟨_, .skip stated, inside, rfl⟩
  | @field segment key rest _ shape child spelled object found =>
      rw [object] at same
      obtain ⟨counterpart, stated, _⟩ := same.exists_object
      rw [stated] at same
      rcases rel_cases (same.child?_rel key) with ⟨absent, _⟩ | ⟨_, node, known, held, inside⟩
      · rw [absent] at found
        contradiction
      · cases known.symm.trans found
        exact ⟨_, .field spelled stated held, inside, inArray⟩

theorem Walks.alike (walks : Walks placeholders steps here count goal) (alike : here.Alike there) :
    ∃ counterpart, Walks placeholders steps there count counterpart ∧ goal.Alike counterpart := by
  induction walks generalizing there with
  | arrived => exact ⟨there, .arrived, alike⟩
  | @stopped segment rest here unknown plain =>
      have same := alike.node
      rw [unknown] at same
      have stated := Schema.eq_of_scalar_equivalent same.equal
      exact ⟨_, .stopped stated plain, alike.node, alike.inArray⟩
  | next first _ ih =>
      obtain ⟨middle, move, onward⟩ := first.alike alike
      obtain ⟨counterpart, walks, reached⟩ := ih onward
      exact ⟨counterpart, .next move walks, reached⟩

theorem resolveText_same {root other : Schema} {text : String} {options : ResolveOptions}
    {resolved : Resolved} (same : root.Same other)
    (resolves : resolveText root text options = .ok resolved) :
    ∃ counterpart, resolveText other text options = .ok counterpart ∧
      resolved.valueType.Same counterpart.valueType := by
  obtain ⟨path, parsed, reached⟩ := bind_eq_ok.mp resolves
  obtain ⟨filled, moves, within, goal, walks, rfl⟩ := FieldPath.resolve_eq_ok_iff.mp reached
  have start : Arrival.Alike { node := root } { node := other } := ⟨same, rfl⟩
  obtain ⟨counterpart, others, alike⟩ := walks.alike start
  refine ⟨⟨path, counterpart, options.checkInArray⟩, bind_eq_ok.mpr ⟨path, parsed, ?_⟩, ?_⟩
  · exact FieldPath.resolve_eq_ok_iff.mpr ⟨filled, moves, within, counterpart, others, rfl⟩
  · unfold Resolved.valueType Resolved.node
    simp only [alike.inArray]
    split
    · exact alike.node.array
    · exact alike.node

end Walking

section Objects

variable {one other below above : Shape Schema} {name : String}

/-- What is written last under a name stays; where no name is written twice, that is the field
found first. -/
theorem Shape.find?_foldl_putField {added fields : List (Field Schema)}
    (distinct : (added.map Field.name).Nodup) :
    (added.foldl putField fields).find? (fun field => field.name == name) =
      (added.find? fun field => field.name == name).or
        (fields.find? fun field => field.name == name) := by
  induction added generalizing fields with
  | nil => rfl
  | cons field rest ih =>
      obtain ⟨new, later⟩ := List.nodup_cons.mp distinct
      rw [List.foldl_cons, ih later, Shape.find?_putField]
      by_cases named : field.name = name
      · subst named
        have absent : rest.find? (fun other => other.name == field.name) = none := by
          simpa using new
        simp [absent]
      · simp [named]

theorem find?_overlay (distinct : above.names.Nodup) :
    (overlay below above).find? name = (above.find? name).or (below.find? name) :=
  Shape.find?_foldl_putField distinct

theorem or_rel {α : Type} {related : α → α → Prop} {first second third fourth : Option α}
    (former : Option.Rel related first second) (latter : Option.Rel related third fourth) :
    Option.Rel related (first.or third) (second.or fourth) := by
  cases former with
  | none => exact latter
  | some holds => exact .some holds

theorem overlay_same {below' above' : Shape Schema}
    (same : (Schema.object below).Same (.object below'))
    (aboveSame : (Schema.object above).Same (.object above')) :
    (Schema.object (overlay below above)).Same (.object (overlay below' above')) := by
  have names := (Schema.namesDistinct_object_iff.mp aboveSame.distinct).1
  have otherNames := (Schema.namesDistinct_object_iff.mp aboveSame.otherDistinct).1
  obtain ⟨_, stated, lower⟩ := same.exists_object
  cases stated
  obtain ⟨_, stated, upper⟩ := aboveSame.exists_object
  cases stated
  refine .of_matches (overlay_namesDistinct same.distinct aboveSame.distinct)
    (overlay_namesDistinct same.otherDistinct aboveSame.otherDistinct) ⟨fun name => ?_, ?_⟩
  · rw [find?_overlay names, find?_overlay otherNames]
    exact or_rel (upper.fields name) (lower.fields name)
  · exact or_rel upper.additional lower.additional

theorem openObject_same : openObject.Same openObject := .refl openObject_namesDistinct

theorem mergeObjectTypes_same {types others : List Schema} {merged merged' : Shape Schema}
    (alike : List.Forall₂ Schema.Same types others)
    (same : (Schema.object merged).Same (.object merged')) :
    (mergeObjectTypes types merged).Same (mergeObjectTypes others merged') := by
  induction alike generalizing merged merged' with
  | nil => exact same
  | @cons first second rest later head _ ih =>
      cases first with
      | object shape =>
          obtain ⟨counterpart, rfl, _⟩ := head.exists_object
          exact ih (overlay_same same head)
      | array element =>
          obtain ⟨counterpart, rfl, _⟩ := head.exists_array
          exact openObject_same
      | scalar kind =>
          rw [Schema.eq_of_scalar_equivalent head.equal]
          cases kind with
          | null => exact ih same
          | _ => exact openObject_same

theorem find?_closedObject (fields : List (String × Schema)) (name : String) :
    (fields.map fun field => (⟨field.1, field.2, false, false⟩ : Field Schema)).find?
        (fun field => field.name == name) =
      (fields.lookup name).map fun node => ⟨name, node, false, false⟩ := by
  induction fields with
  | nil => rfl
  | cons field rest ih =>
      obtain ⟨held, node⟩ := field
      by_cases named : held = name
      · subst named
        simp
      · rw [Keyed.lookup_cons_of_ne named, ← ih]
        simp [named]

theorem closedObject_same {fields others : List (String × Schema)}
    (alike : Keyed.Alike Schema.Same fields others) (distinct : (Keyed.names fields).Nodup) :
    (closedObject fields).Same (closedObject others) := by
  have otherDistinct := alike.perm.nodup_iff.mp distinct
  refine .of_matches (closedObject_namesDistinct distinct fun field member => ?_)
    (closedObject_namesDistinct otherDistinct fun other held => ?_) ⟨fun name => ?_, .none⟩
  · obtain ⟨_, _, _, same⟩ := alike.symm.exists_of_mem member
    exact same.distinct
  · obtain ⟨_, _, _, same⟩ := alike.exists_of_mem held
    exact same.otherDistinct
  · unfold Shape.find?
    rw [find?_closedObject, find?_closedObject]
    rcases rel_cases (alike.lookup name) with ⟨absent, missing⟩ | ⟨_, _, found, held, same⟩
    · rw [absent, missing]
      exact .none
    · rw [found, held]
      exact .some ⟨rfl, rfl, same.equal⟩

end Objects

namespace Json

theorem type_object (entries : List (String × Json)) :
    (object entries).type =
      match extendedKind? entries with
      | some kind => .scalar kind
      | none => closedObject (entries.map fun entry => (entry.1, entry.2.type)) := by
  cases wrapped : extendedKind? entries with
  | some kind => rw [type, wrapped]
  | none => simp [type_object_of_plain wrapped, closedObject, Function.comp_def]

theorem Reorders.type_same {value other : Json} (alike : value.Reorders other)
    (keys : value.KeysDistinct) : value.type.Same other.type := by
  induction alike with
  | null => exact .refl (.scalar _)
  | bool => exact .refl (.scalar _)
  | number => exact .refl (.scalar _)
  | string => exact .refl (.scalar _)
  | array sameLength _ each =>
      have inside := keysDistinct_array_iff.mp keys
      rw [type_array, type_array]
      refine (Schema.unifyAll_same ?_).array
      rw [List.forall₂_map_left_iff, List.forall₂_map_right_iff, List.forall₂_iff_zip]
      exact ⟨sameLength, fun member => each _ member (inside _ (List.of_mem_zip member).1)⟩
  | @object entries others names values each =>
      obtain ⟨distinct, inside⟩ := keysDistinct_object_iff.mp keys
      have alike : Keyed.Alike Reorders entries others := ⟨names, values⟩
      rw [type_object, type_object, extendedKind?_eq alike]
      split
      · exact .refl (.scalar _)
      · refine closedObject_same ?_ (by simpa [Keyed.names, Function.comp_def] using distinct)
        have below : Keyed.Alike (fun value other => value.type.Same other.type) entries others :=
          ⟨names, fun entry member other held same =>
            each entry member other held same (inside entry member)⟩
        exact below.map fun _ _ _ _ same => same

end Json

section Results

structure ArgumentTypes.Same (types others : ArgumentTypes) : Prop where
  positional : List.Forall₂ Schema.Same types.positional others.positional
  named : Keyed.Alike Schema.Same types.named others.named

variable {type other : Schema} {types others : List Schema} {argument counterpart : Json}
  {parts otherParts : ArgumentTypes}

theorem elementOf_same (same : type.Same other) : (elementOf type).Same (elementOf other) := by
  unfold elementOf
  rcases rel_cases same.element?_rel with ⟨absent, missing⟩ | ⟨_, _, found, held, inside⟩
  · rw [absent, missing]
    exact .refl (.scalar _)
  · rw [found, held]
    exact inside

theorem arrayOrUnknown_same {given held : Option Schema}
    (same : Option.Rel Schema.Same given held) :
    (arrayOrUnknown given).Same (arrayOrUnknown held) := by
  cases same with
  | none => exact .refl (.array (.scalar _))
  | @some type other same =>
      cases type with
      | array element =>
          obtain ⟨inside, rfl, _⟩ := same.exists_array
          exact same
      | scalar kind =>
          rw [Schema.eq_of_scalar_equivalent same.equal]
          exact .refl (.array (.scalar _))
      | object shape =>
          obtain ⟨inside, rfl, _⟩ := same.exists_object
          exact .refl (.array (.scalar _))

theorem commonType_same (same : List.Forall₂ Schema.Same types others) :
    (commonType types).Same (commonType others) := by
  unfold commonType
  have filtered := List.rel_filter (p := fun type => type.scalarKind? != some .null)
    (q := fun type => type.scalarKind? != some .null)
    (fun _ _ same => by simp [Schema.Same.scalarKind?_eq same]) same
  generalize types.filter _ = kept at filtered ⊢
  generalize others.filter _ = otherKept at filtered ⊢
  cases filtered with
  | nil => exact Schema.unifyAll_same same
  | cons head tail => exact Schema.unifyAll_same (.cons head tail)

theorem head?_rel {α β : Type} {related : α → β → Prop} {items : List α} {others : List β}
    (alike : List.Forall₂ related items others) : Option.Rel related items.head? others.head? := by
  cases alike with
  | nil => exact .none
  | cons head _ => exact .some head

theorem ArgumentTypes.Same.input?_rel (same : parts.Same otherParts) :
    Option.Rel Schema.Same parts.input? otherParts.input? :=
  or_rel (head?_rel same.positional) (same.named.lookup "input")

theorem toList_forall₂ {α β : Type} {related : α → β → Prop} {one : Option α} {two : Option β}
    (alike : Option.Rel related one two) : List.Forall₂ related one.toList two.toList := by
  cases alike with
  | none => exact .nil
  | some holds => exact .cons holds .nil

namespace ExprOperator

theorem candidates_same (operator : ExprOperator) (alike : argument.Reorders counterpart)
    (same : parts.Same otherParts) :
    List.Forall₂ Schema.Same (operator.candidates argument parts)
      (operator.candidates counterpart otherParts) := by
  obtain ⟨types, byName⟩ := parts
  obtain ⟨others, otherByName⟩ := otherParts
  obtain ⟨positional, named⟩ := same
  unfold candidates
  dsimp only at positional named ⊢
  split
  · have results : List.Forall₂ Schema.Same
        (["then", "else"].filterMap fun key => byName.lookup key)
        (["then", "else"].filterMap fun key => otherByName.lookup key) := by
      refine List.rel_filterMap ?_ (List.forall₂_same.mpr fun key _ => rfl)
      intro key _ same
      rw [same]
      exact named.lookup _
    -- Only a list of exactly three has its results by position.
    obtain _ | ⟨condition, _ | ⟨consequence, _ | ⟨alternative, _ | _⟩⟩⟩ := positional
    all_goals first | exact results | exact .cons consequence (.cons alternative .nil)
  · exact List.rel_append positional (toList_forall₂ (named.lookup "default"))
  · rw [alike.isSome_array?_eq]
    split
    · exact positional
    · rw [List.forall₂_map_left_iff, List.forall₂_map_right_iff]
      refine positional.imp fun type other same => ?_
      rcases rel_cases same.element?_rel with ⟨absent, missing⟩ | ⟨_, _, found, held, inside⟩
      · rw [absent, missing]
        exact same
      · rw [found, held]
        exact inside
  · exact positional

theorem mergeSources_same (alike : argument.Reorders counterpart) (same : parts.Same otherParts) :
    List.Forall₂ Schema.Same (mergeSources argument parts)
      (mergeSources counterpart otherParts) := by
  obtain ⟨types, byName⟩ := parts
  obtain ⟨others, otherByName⟩ := otherParts
  have positional := same.positional
  cases alike with
  | string text =>
      -- A text that stands alone refers to an array of objects.
      cases positional with
      | nil => exact .nil
      | cons head tail =>
          cases tail with
          | nil => exact toList_forall₂ head.element?_rel
          | cons second rest => exact .cons head (.cons second rest)
  | _ => exact positional

theorem conversionType_eq (alike : argument.Reorders counterpart) :
    conversionType argument = conversionType counterpart := by
  cases alike with
  | object names values =>
      simp only [conversionType, Json.Reorders.lookup_string_eq ⟨names, values⟩]
  | _ => rfl

theorem resultType_same (operator : ExprOperator) (alike : argument.Reorders counterpart)
    (same : parts.Same otherParts) :
    (operator.resultType argument parts).Same (operator.resultType counterpart otherParts) := by
  have empty : (Schema.object .empty).Same (.object .empty) :=
    .refl (.object (by decide) (by simp [Shape.empty]) (by simp [Shape.empty]))
  unfold resultType
  split
  · exact .refl (.scalar _)
  · exact .refl (.array (.scalar _))
  · exact .refl (.array (.scalar _))
  · exact arrayOrUnknown_same same.input?_rel
  · rcases rel_cases same.input?_rel with ⟨absent, missing⟩ | ⟨_, _, found, held, inside⟩
    · rw [absent, missing]
      exact .refl (.scalar _)
    · rw [found, held]
      exact elementOf_same inside
  · exact commonType_same (operator.candidates_same alike same)
  · exact mergeObjectTypes_same (mergeSources_same alike same) empty
  · refine .refl (closedObject_namesDistinct (by decide) ?_)
    simp [Schema.number]
  · exact .refl patternMatchType_namesDistinct
  · exact .refl (.array patternMatchType_namesDistinct)
  · refine .refl (.array (closedObject_namesDistinct (by decide) ?_))
    simp [Schema.string, Schema.unknown]
  · exact openObject_same
  · rw [conversionType_eq alike]
    exact .refl conversionType_namesDistinct
  all_goals exact .refl (.scalar _)

end ExprOperator

end Results

end DocTyping
