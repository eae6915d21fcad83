import DocTyping.Filter.Arguments
import DocTyping.Proofs.Literal.Admission
import DocTyping.Proofs.Reordering.Entries
import DocTyping.Update.Payload

namespace DocTyping

/-!
# Literals up to the order of keys

What a value is as a literal does not depend on the order of its keys: its kind,
the schemas that admit it, and whether it is a geometry, a mask, a direction or
another of the forms that operators ask for.
-/

section Entries

variable {entries others : List (String × Json)}

theorem hasOperatorKey_eq (alike : Keyed.Alike Json.Reorders entries others) :
    hasOperatorKey entries = hasOperatorKey others :=
  alike.any_eq Text.startsWithDollar

namespace Json

theorem Reorders.string?_eq {value other : Json} (alike : value.Reorders other) :
    value.string? = other.string? := by
  cases alike <;> rfl

theorem Reorders.isDatePayload_eq {value other : Json} (alike : value.Reorders other) :
    value.isDatePayload = other.isDatePayload := by
  cases alike with
  | object names values =>
      have alike : Keyed.Alike Reorders _ _ := ⟨names, values⟩
      exact alike.has_eq "$numberLong"
  | _ => rfl

theorem Reorders.wrapperKind?_eq {value other : Json} (alike : value.Reorders other)
    (key : String) : wrapperKind? key value = wrapperKind? key other := by
  unfold wrapperKind?
  rw [alike.isDatePayload_eq, alike.string?_eq]

theorem extendedKind?_eq (alike : Keyed.Alike Reorders entries others) :
    extendedKind? entries = extendedKind? others := by
  have sameLength : entries.length = others.length := by
    simpa [Keyed.names] using alike.perm.length_eq
  obtain _ | ⟨⟨key, value⟩, _ | ⟨second, rest⟩⟩ := entries
  · rw [List.eq_nil_of_length_eq_zero sameLength.symm]
  · obtain ⟨other, rfl, inside⟩ := alike.singleton
    exact inside.wrapperKind?_eq key
  · -- Several entries on one side are several on the other.
    obtain _ | ⟨_, _ | ⟨_, _⟩⟩ := others
    · simp at sameLength
    · simp at sameLength
    · rfl

theorem isOperatorObject_eq (alike : Keyed.Alike Reorders entries others) :
    isOperatorObject entries = isOperatorObject others := by
  unfold isOperatorObject
  rw [alike.isEmpty_eq, extendedKind?_eq alike, alike.all_eq Text.startsWithDollar]

end Json

end Entries

namespace Json.Reorders

variable {value other : Json} {items permuted : List Json} {entries others : List (String × Json)}

theorem bool?_eq (alike : value.Reorders other) : value.bool? = other.bool? := by
  cases alike <;> rfl

theorem number?_eq (alike : value.Reorders other) : value.number? = other.number? := by
  cases alike <;> rfl

theorem isNull_eq (alike : value.Reorders other) : value.isNull = other.isNull := by
  cases alike <;> rfl

theorem isSome_array?_eq (alike : value.Reorders other) :
    value.array?.isSome = other.array?.isSome := by
  cases alike <;> rfl

theorem isSome_object?_eq (alike : value.Reorders other) :
    value.object?.isSome = other.object?.isSome := by
  cases alike <;> rfl

theorem int64?_eq (alike : value.Reorders other) : value.int64? = other.int64? := by
  rw [int64?, int64?, alike.number?_eq]

theorem uint64?_eq (alike : value.Reorders other) : value.uint64? = other.uint64? := by
  rw [uint64?, uint64?, alike.number?_eq]

theorem isString_eq (alike : value.Reorders other) : value.isString = other.isString := by
  rw [isString, isString, alike.string?_eq]

theorem isNumber_eq (alike : value.Reorders other) : value.isNumber = other.isNumber := by
  rw [isNumber, isNumber, alike.number?_eq]

theorem extended?_eq (alike : value.Reorders other) : value.extended? = other.extended? := by
  cases alike with
  | object names values => exact extendedKind?_eq ⟨names, values⟩
  | _ => rfl

theorem isRegex_eq (alike : value.Reorders other) : value.isRegex = other.isRegex := by
  rw [isRegex, isRegex, alike.extended?_eq]

theorem all_eq {related : Json → Json → Prop} {test : Json → Bool}
    (alike : List.Forall₂ related items permuted)
    (each : ∀ value other, related value other → test value = test other) :
    items.all test = permuted.all test := by
  induction alike with
  | nil => rfl
  | cons head _ ih => rw [List.all_cons, List.all_cons, each _ _ head, ih]

/-- What is read off the value under a key, or off its absence. -/
theorem lookup_eq {α : Type} (alike : Keyed.Alike Reorders entries others) (key : String)
    (read : Option Json → α)
    (each : ∀ value other, Reorders value other → read (some value) = read (some other)) :
    read (entries.lookup key) = read (others.lookup key) := by
  rcases rel_cases (alike.lookup key) with ⟨absent, missing⟩ | ⟨value, other, found, held, inside⟩
  · rw [absent, missing]
  · rw [found, held]
    exact each value other inside

theorem lookup_string_eq (alike : Keyed.Alike Reorders entries others) (key : String) :
    (entries.lookup key).bind string? = (others.lookup key).bind string? :=
  lookup_eq alike key (Option.bind · string?) fun _ _ => string?_eq

theorem lookup_any_eq (alike : Keyed.Alike Reorders entries others) (key : String)
    {test : Json → Bool} (each : ∀ value other, Reorders value other → test value = test other) :
    (entries.lookup key).any test = (others.lookup key).any test :=
  lookup_eq alike key (Option.any test) each

theorem admits_kind_eq (alike : value.Reorders other) (kind : ScalarKind) :
    kind.admits value = kind.admits other := by
  unfold ScalarKind.admits
  rw [alike.extended?_eq, alike.isString_eq, alike.int64?_eq, alike.uint64?_eq, alike.isNumber_eq,
    alike.bool?_eq, alike.string?_eq, alike.isNull_eq]

theorem admits {schema : Schema} {nullable : Bool} {presence : Presence}
    (alike : value.Reorders other) (admitted : schema.admits value nullable presence = true) :
    schema.admits other nullable presence = true := by
  induction alike generalizing schema nullable presence with
  | null => exact admitted
  | bool => exact admitted
  | number => exact admitted
  | string => exact admitted
  | array sameLength values each =>
      cases schema with
      | scalar kind => exact (admits_kind_eq (.array sameLength values) kind).symm.trans admitted
      | array element =>
          refine Schema.itemsConform_iff.mpr fun other held => ?_
          obtain ⟨item, member, paired⟩ := exists_paired sameLength held
          exact each _ paired (Schema.itemsConform_iff.mp admitted item member)
      | object shape => contradiction
  | @object entries others names values each =>
      have alike : Keyed.Alike Reorders entries others := ⟨names, values⟩
      cases schema with
      | scalar kind => exact (admits_kind_eq (.object names values) kind).symm.trans admitted
      | array element => contradiction
      | object shape =>
          simp only [Schema.admits, Json.conforms, Bool.and_eq_true, Schema.entriesConform_iff]
            at admitted ⊢
          obtain ⟨⟨unwrapped, conform⟩, given⟩ := admitted
          refine ⟨⟨extendedKind?_eq alike ▸ unwrapped, fun other held => ?_⟩, ?_⟩
          · obtain ⟨entry, member, same, _⟩ := alike.exists_of_mem held
            have admitted := conform entry member
            rw [same] at admitted
            cases found : shape.find? other.1 with
            | some field =>
                rw [found] at admitted
                exact each entry member other held same admitted
            | none =>
                rw [found] at admitted
                obtain ⟨node, stated, inside⟩ := admitted
                exact ⟨node, stated, each entry member other held same inside⟩
          · unfold Shape.requiredPresent at given ⊢
            simpa only [alike.has_eq] using given

theorem admits_eq (alike : value.Reorders other) (schema : Schema) (nullable : Bool)
    (presence : Presence) :
    schema.admits value nullable presence = schema.admits other nullable presence :=
  Bool.eq_iff_iff.mpr ⟨alike.admits, alike.symm.admits⟩

end Json.Reorders

end DocTyping
