import DocTyping.Proofs.Expression.DistinctNames
import DocTyping.Proofs.Literal.Admission

namespace DocTyping

/-!
# Literals and their types

A literal conforms to its type.  The items of an array share one type, which is made of
theirs item by item; but the objects of such types are closed and have no field that
admits null, and merging those loses no value.
-/

namespace Schema

variable {left right first type element : Schema} {one other shape : Shape Schema}
  {types : List Schema} {value : Json} {nullable : Bool} {presence : Presence}

theorem scalar_not_lax (kind : ScalarKind) : ¬ (scalar kind).Lax := by
  intro lax
  cases lax

theorem lax_array_iff : (array element).Lax ↔ element.Lax :=
  ⟨fun | .element inside => inside, .element⟩

theorem lax_object_iff :
    (object shape).Lax ↔
      shape.additional.isSome = true ∨
        ∃ field ∈ shape.fields, field.nullable = true ∨ field.node.Lax := by
  constructor
  · intro lax
    cases lax with
    | field member inside => exact .inr ⟨_, member, .inr inside⟩
    | null member nullable => exact .inr ⟨_, member, .inl nullable⟩
    | undeclared admitted => exact .inl (by simp [admitted])
  · intro reasons
    rcases reasons with opened | ⟨field, member, nullable | inside⟩
    · obtain ⟨node, admitted⟩ := Option.isSome_iff_exists.mp opened
      exact .undeclared admitted
    · exact .null member nullable
    · exact .field member inside

/-- A schema as literals have them: no object in it declares a name twice, is open, or has a field
that admits null. -/
structure Strict (schema : Schema) : Prop where
  distinct : schema.NamesDistinct
  exact : ¬ schema.Lax

theorem Strict.scalar (kind : ScalarKind) : (scalar kind).Strict :=
  ⟨.scalar kind, scalar_not_lax kind⟩

theorem Strict.array (inside : element.Strict) : (array element).Strict :=
  ⟨.array inside.distinct, mt lax_array_iff.mp inside.exact⟩

/-- What holds of the fields under a name on either side, and of their common schema, holds of the
merged field. -/
theorem mergedLookup_node {name : String} {here there : Option (Field Schema)}
    {merged : Field Schema} {motive : Schema → Prop}
    (found : mergedLookup name here there = some merged)
    (left : ∀ field ∈ here, motive field.node) (right : ∀ field ∈ there, motive field.node)
    (both : ∀ field ∈ here, ∀ counterpart ∈ there, motive (field.node.unify counterpart.node)) :
    motive merged.node := by
  cases here with
  | none =>
      cases there with
      | none => contradiction
      | some alone =>
          cases found
          exact right alone rfl
  | some field =>
      cases there with
      | none =>
          cases found
          exact left field rfl
      | some counterpart =>
          cases found
          exact both field rfl counterpart rfl

theorem unifyShapes_not_lax (strict : ¬ (object one).Lax) (otherStrict : ¬ (object other).Lax)
    (names : (unifyShapes one other).names.Nodup)
    (each : ∀ name, ∀ field ∈ one.find? name, ∀ counterpart ∈ other.find? name,
      ¬ field.node.Lax → ¬ counterpart.node.Lax → ¬ (field.node.unify counterpart.node).Lax) :
    ¬ (object (unifyShapes one other)).Lax := by
  have inside : ∀ name, ∀ field ∈ one.find? name, ¬ field.node.Lax := fun name field found lax =>
    strict (.field (Shape.mem_of_find? found) lax)
  have otherInside : ∀ name, ∀ field ∈ other.find? name, ¬ field.node.Lax :=
    fun name field found lax => otherStrict (.field (Shape.mem_of_find? found) lax)
  rw [lax_object_iff, additional_unifyShapes]
  intro lax
  rcases lax with opened | ⟨merged, member, nullable | lax⟩
  · contradiction
  · have held := Shape.find?_of_mem names member
    rw [unifyShapes_plain.fields merged.name merged held] at nullable
    contradiction
  · have held := Shape.find?_of_mem names member
    rw [find?_unifyShapes] at held
    refine mergedLookup_node (motive := fun node => ¬ node.Lax) held (inside _) (otherInside _)
      (fun field found counterpart holds => ?_) lax
    exact each _ field found counterpart holds (inside _ field found) (otherInside _ _ holds)

theorem unify_not_lax (distinct : left.NamesDistinct) (rightDistinct : right.NamesDistinct)
    (strict : ¬ left.Lax) (rightStrict : ¬ right.Lax) : ¬ (left.unify right).Lax := by
  induction left, right, distinct, rightDistinct using namesDistinct_pairs with
  | mixed left right distinct rightDistinct different =>
      rw [unify_of_form_ne different]
      exact scalar_not_lax _
  | scalar left right =>
      rw [unify_scalar]
      exact scalar_not_lax _
  | array left right distinct rightDistinct ih =>
      rw [lax_array_iff] at strict rightStrict
      rw [unify_array, lax_array_iff]
      exact ih strict rightStrict
  | object one other distinct otherDistinct each =>
      by_cases equal : (object one).equivalent (object other) = true
      · rw [unify_of_equivalent equal]
        exact strict
      · have names :=
          (namesDistinct_object_iff.mp (unifyShapes_namesDistinct distinct otherDistinct)).1
        rw [unify_object_of_ne equal]
        refine unifyShapes_not_lax strict rightStrict names ?_
        exact fun name field found counterpart held => each name field found counterpart held

theorem Strict.unify (strict : left.Strict) (rightStrict : right.Strict) :
    (left.unify right).Strict :=
  ⟨unify_namesDistinct strict.distinct rightStrict.distinct,
    unify_not_lax strict.distinct rightStrict.distinct strict.exact rightStrict.exact⟩

theorem Strict.unify_admits (strict : left.Strict) (rightStrict : right.Strict)
    (admitted : left.admits value nullable presence = true ∨
      right.admits value nullable presence = true) :
    (left.unify right).admits value nullable presence = true := by
  rcases admitted with admitted | admitted
  · refine (unify_admits_iff_left strict.distinct rightStrict.distinct admitted).mpr ?_
    exact fun lost => strict.exact lost.lax
  · rw [(unify_comm strict.distinct rightStrict.distinct).admits]
    refine (unify_admits_iff_left rightStrict.distinct strict.distinct admitted).mpr ?_
    exact fun lost => rightStrict.exact lost.lax

theorem foldl_unify_strict (strict : first.Strict) (each : ∀ type ∈ types, type.Strict) :
    (types.foldl unify first).Strict := by
  induction types generalizing first with
  | nil => exact strict
  | cons type rest ih =>
      obtain ⟨head, tail⟩ := List.forall_mem_cons.mp each
      exact ih (strict.unify head) tail

/-- What the first schema or any later one admits is admitted in the end. -/
theorem foldl_unify_admits (strict : first.Strict) (each : ∀ type ∈ types, type.Strict)
    (admitted : ∃ type ∈ first :: types, type.admits value nullable presence = true) :
    (types.foldl unify first).admits value nullable presence = true := by
  induction types generalizing first with
  | nil => simpa using admitted
  | cons second rest ih =>
      obtain ⟨head, tail⟩ := List.forall_mem_cons.mp each
      refine ih (strict.unify head) tail ?_
      obtain ⟨type, member, admitted⟩ := admitted
      rcases List.mem_cons.mp member with rfl | later
      · exact ⟨_, List.mem_cons_self, strict.unify_admits head (.inl admitted)⟩
      · rcases List.mem_cons.mp later with rfl | onward
        · exact ⟨_, List.mem_cons_self, strict.unify_admits head (.inr admitted)⟩
        · exact ⟨type, List.mem_cons_of_mem _ onward, admitted⟩

theorem unifyAll_strict (each : ∀ type ∈ types, type.Strict) : (unifyAll types).Strict := by
  cases types with
  | nil => exact .scalar _
  | cons first rest =>
      obtain ⟨head, tail⟩ := List.forall_mem_cons.mp each
      exact foldl_unify_strict head tail

theorem unifyAll_admits (each : ∀ type ∈ types, type.Strict) (member : type ∈ types)
    (admitted : type.admits value nullable presence = true) :
    (unifyAll types).admits value nullable presence = true := by
  cases types with
  | nil => contradiction
  | cons first rest =>
      obtain ⟨head, tail⟩ := List.forall_mem_cons.mp each
      exact foldl_unify_admits head tail ⟨type, member, admitted⟩

end Schema

namespace Json

variable {value payload : Json} {entries : List (String × Json)} {items : List Json} {key : String}
  {kind : ScalarKind}

theorem type_strict (keys : value.KeysDistinct) : value.type.Strict := by
  refine ⟨type_namesDistinct keys, ?_⟩
  induction keys with
  | null => exact Schema.scalar_not_lax _
  | bool => exact Schema.scalar_not_lax _
  | number => exact Schema.scalar_not_lax _
  | string => exact Schema.scalar_not_lax _
  | array each ih =>
      rw [type_array]
      have strict : ∀ item ∈ _, (type item).Strict := fun item member =>
        ⟨type_namesDistinct (each item member), ih item member⟩
      exact (Schema.Strict.array (Schema.unifyAll_strict (List.forall_mem_map.mpr strict))).exact
  | @object entries distinct each ih =>
      cases wrapped : extendedKind? entries with
      | some kind =>
          rw [type, wrapped]
          exact Schema.scalar_not_lax kind
      | none =>
          rw [type_object_of_plain wrapped, Schema.lax_object_iff]
          intro lax
          rcases lax with opened | ⟨field, member, lax⟩
          · contradiction
          · obtain ⟨entry, listed, rfl⟩ := List.mem_map.mp member
            exact ih entry listed (by simpa using lax)

theorem admits_of_extendedKind? (wrapped : extendedKind? entries = some kind) :
    kind.admits (object entries) = true := by
  have announced : (object entries).extended? = some kind := wrapped
  cases kind with
  | string | bool | null =>
      exfalso
      unfold extendedKind? at wrapped
      split at wrapped
      · unfold wrapperKind? at wrapped
        grind
      · contradiction
  | _ => simp [ScalarKind.admits, announced, ScalarKind.isNumeric]

theorem type_admits (keys : value.KeysDistinct) : value.type.admits value false .full = true := by
  have strict := type_strict keys
  induction keys with
  | null => rfl
  | bool => rfl
  | number => rfl
  | string => rfl
  | array each ih =>
      rw [type_array, Schema.admits_array_iff]
      refine .inr ⟨_, rfl, fun item member => ?_⟩
      refine Schema.unifyAll_admits ?_ (List.mem_map_of_mem member)
        (ih item member (type_strict (each item member)))
      exact List.forall_mem_map.mpr fun item member => type_strict (each item member)
  | @object entries distinct each ih =>
      cases wrapped : extendedKind? entries with
      | some kind =>
          rw [type, wrapped]
          exact admits_of_extendedKind? wrapped
      | none =>
          have names := (Schema.namesDistinct_object_iff.mp
            (type_object_of_plain wrapped ▸ strict.distinct)).1
          rw [type_object_of_plain wrapped, Schema.admits_object_iff names]
          refine .inr ⟨_, rfl, wrapped, fun entry member => ?_, fun name field found => ?_⟩
          · have found := Shape.find?_of_mem names (List.mem_map_of_mem member)
            rw [found, Schema.admitsUnder_some]
            exact ih entry member (type_strict (each entry member))
          · obtain ⟨entry, listed, rfl⟩ := List.mem_map.mp (Shape.mem_of_find? found)
            exact .inr (.inl (List.any_eq_true.mpr ⟨entry, listed, by
              simpa using Shape.name_of_find? found⟩))

end Json

/-- Every literal conforms to its type, as a whole value and with every field given.  So the items
of an array conform to the type that the array gives to its elements. -/
theorem literal_conforms :
    (∀ value : Json, value.KeysDistinct → value.type.admits value false .full = true) ∧
    ∀ items : List Json, (Json.array items).KeysDistinct →
      ∃ element, (Json.array items).type = .array element ∧
        ∀ item ∈ items, element.admits item false .full = true := by
  refine ⟨fun value keys => Json.type_admits keys, fun items keys => ?_⟩
  refine ⟨_, Json.type_array items, ?_⟩
  have whole := Json.type_admits keys
  rw [Json.type_array, Schema.admits_array_iff] at whole
  rcases whole with ⟨isNull, _⟩ | ⟨_, same, each⟩
  · contradiction
  · cases same
    exact each

/-- Readings of two gauges: the second lacks the unit, and its level is not known. -/
def readings : List Json :=
  [.object [("level", .object [("$numberInt", .string "4")]), ("unit", .string "m")],
    .object [("level", .null)]]

theorem literal_conforms_readings :
    (Json.array readings).KeysDistinct ∧
      (Json.array readings).type =
        .array (.object
          ⟨[⟨"level", .unknown, false, false⟩, ⟨"unit", .string, true, false⟩], none⟩) ∧
      (Json.array readings).type.admits (.array readings) false .full = true ∧
      ∃ element, (Json.array readings).type = .array element ∧
        ∀ item ∈ readings, element.admits item false .full = true := by
  have keys : (Json.array readings).KeysDistinct := by
    simp [readings, Json.keysDistinct_array_iff, Json.keysDistinct_object_iff, Keyed.names,
      Json.KeysDistinct.string, Json.KeysDistinct.null]
  exact ⟨keys, rfl, literal_conforms.1 _ keys, literal_conforms.2 _ keys⟩

end DocTyping
