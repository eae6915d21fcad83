import DocTyping.Proofs.Literal.Admission

namespace DocTyping

/-!
# Widths of integers

An integer that stands for a short or a long scalar, at any depth of a value, lies in the range of
the scalar.  Nothing else is asked of it: any other integer of the range may take its place.  But
the range of long integers reaches up to the largest unsigned one.
-/

/-- The integers that may stand for a scalar of a kind, where these have a width. -/
def ScalarKind.range? : ScalarKind → Option (Int × Int)
  | .int => some (int32Min, int32Max)
  | .long => some (Number.int64Min, Number.uint64Max)
  | _ => none

namespace Schema

/-- A place for a scalar of a kind, and the values around it: a value at the place is filled into
them.  The keys on the way are declared or admitted by an open object. -/
inductive Around (kind : ScalarKind) : Schema → (Json → Json) → Prop
  | here : Around kind (scalar kind) fun value => value
  | element {element : Schema} {fill : Json → Json} {before after : List Json}
      (inside : Around kind element fill) :
      Around kind (array element) fun value => .array (before ++ fill value :: after)
  | entry {shape : Shape Schema} {key : String} {node : Schema} {fill : Json → Json}
      {before after : List (String × Json)} (found : shape.child? key = some node)
      (inside : Around kind node fill) :
      Around kind (object shape) fun value => .object (before ++ (key, fill value) :: after)

/-- Every integer at a place with a width lies in its range. -/
def KeepsRange (schema : Schema) (value : Json) : Prop :=
  ∀ kind low high fill number, ScalarKind.range? kind = some (low, high) →
    Around kind schema fill → value = fill (.ofInt number) → low ≤ number ∧ number ≤ high

variable {kind : ScalarKind} {schema element node : Schema} {shape : Shape Schema}
  {fill : Json → Json} {key : String} {value : Json} {nullable : Bool} {presence : Presence}
  {low high number other : Int} {entries before after : List (String × Json)}

theorem range?_cases (ranged : kind.range? = some (low, high)) :
    (kind = .int ∧ low = int32Min ∧ high = int32Max) ∨
      (kind = .long ∧ low = Number.int64Min ∧ high = Number.uint64Max) := by
  cases kind <;> cases ranged
  · exact .inl ⟨rfl, rfl, rfl⟩
  · exact .inr ⟨rfl, rfl, rfl⟩

theorem int64?_ofInt {held : Int} : (Json.ofInt number).int64? = some held ↔
    number = held ∧ Number.int64Min ≤ number ∧ number ≤ Number.int64Max := by
  change (if _ then some number else none) = some held ↔ _
  simp [and_comm]

theorem uint64?_ofInt : (Json.ofInt number).uint64?.isSome = true ↔
    0 ≤ number ∧ number ≤ Number.uint64Max := by
  change (if _ then some number.toNat else none).isSome = true ↔ _
  simp

theorem int_admits_ofInt :
    ScalarKind.int.admits (.ofInt number) = true ↔ int32Min ≤ number ∧ number ≤ int32Max := by
  have unwrapped : ((Json.ofInt number).extended? == some ScalarKind.int) = false := rfl
  simp only [ScalarKind.admits, unwrapped, Bool.or_false, Option.any_eq_true, int64?_ofInt,
    decide_eq_true_eq]
  constructor
  · intro narrow
    obtain ⟨_, ⟨rfl, _⟩, within⟩ := narrow
    exact within
  · intro within
    obtain ⟨least, largest⟩ := within
    have wide : Number.int64Min ≤ number ∧ number ≤ Number.int64Max := by
      simp only [int32Min, int32Max, Number.int64Min, Number.int64Max] at *
      omega
    exact ⟨number, ⟨rfl, wide⟩, least, largest⟩

theorem long_admits_ofInt : ScalarKind.long.admits (.ofInt number) = true ↔
    Number.int64Min ≤ number ∧ number ≤ Number.uint64Max := by
  have unwrapped : ∀ kind, ((Json.ofInt number).extended? == some kind) = false := fun _ => rfl
  simp only [ScalarKind.admits, unwrapped, Bool.or_false, Bool.or_eq_true, Option.isSome_iff_exists,
    int64?_ofInt, exists_eq_left']
  rw [← Option.isSome_iff_exists, uint64?_ofInt]
  simp only [Number.int64Min, Number.int64Max, Number.uint64Max]
  omega

theorem admits_ofInt_iff (ranged : kind.range? = some (low, high)) :
    kind.admits (.ofInt number) = true ↔ low ≤ number ∧ number ≤ high := by
  rcases range?_cases ranged with ⟨rfl, rfl, rfl⟩ | ⟨rfl, rfl, rfl⟩
  · exact int_admits_ofInt
  · exact long_admits_ofInt

theorem admits_array_fill {before after : List Json} :
    (array element).admits (.array (before ++ value :: after)) nullable presence = true ↔
      (∀ item ∈ before, element.admits item false presence = true) ∧
        element.admits value false presence = true ∧
          ∀ item ∈ after, element.admits item false presence = true := by
  simp only [admits_array_iff, reduceCtorEq, false_and, false_or, Json.array.injEq,
    exists_eq_left', List.forall_mem_append, List.forall_mem_cons]

theorem entriesConform_fill (found : shape.child? key = some node) :
    Json.entriesConform shape (before ++ (key, value) :: after) = true ↔
      Json.entriesConform shape before = true ∧
        node.admits value (shape.isNullable key) .full = true ∧
          Json.entriesConform shape after = true := by
  induction before with
  | nil => simp [Json.entriesConform, found, admits]
  | cons entry rest ih =>
      simp only [List.cons_append, Json.entriesConform, Bool.and_eq_true, ih, and_assoc]

theorem admits_keepsRange (admitted : schema.admits value nullable presence = true) :
    schema.KeepsRange value := by
  intro kind low high fill number ranged around same
  subst same
  induction around generalizing nullable presence with
  | here => exact (admits_ofInt_iff ranged).mp admitted
  | element inside ih => exact ih (admits_array_fill.mp admitted).2.1
  | entry found inside ih =>
      simp only [admits, Json.conforms, Bool.and_eq_true, entriesConform_fill found] at admitted
      exact ih admitted.1.2.2.1

/-! ### Other integers at a place -/

theorem wrapperKind?_eq_none_of {former later : Json} (plain : Json.wrapperKind? key former = none)
    (dated : later.isDatePayload = true → former.isDatePayload = true)
    (noText : later.string? = none) : Json.wrapperKind? key later = none := by
  unfold Json.wrapperKind? at plain ⊢
  split at plain <;> simp_all

theorem has_fill {name : String} {held : Json} :
    Keyed.has (before ++ (key, value) :: after) name =
      Keyed.has (before ++ (key, held) :: after) name := by
  simp [Keyed.has]

/-- Integers of 64 signed bits are dates wherever an integer is one. -/
theorem isDatePayload_fill (around : Around kind schema fill)
    (signed : Number.int64Min ≤ number ∧ number ≤ Number.int64Max)
    (dated : (fill (.ofInt other)).isDatePayload = true) :
    (fill (.ofInt number)).isDatePayload = true := by
  cases around with
  | here => exact Option.isSome_of_eq_some (int64?_ofInt.mpr ⟨rfl, signed⟩)
  | element inside => exact dated
  | entry found inside => exact has_fill.trans dated

theorem string?_fill (around : Around kind schema fill) :
    (fill (.ofInt number)).string? = none := by
  cases around <;> rfl

theorem extendedKind?_fill (around : Around kind schema fill)
    (signed : Number.int64Min ≤ number ∧ number ≤ Number.int64Max)
    (plain : Json.extendedKind? (before ++ (key, fill (.ofInt number)) :: after) = none) :
    Json.extendedKind? (before ++ (key, fill (.ofInt other)) :: after) = none := by
  cases before with
  | nil =>
      cases after with
      | nil =>
          exact wrapperKind?_eq_none_of plain (isDatePayload_fill around signed)
            (string?_fill around)
      | cons entry rest => rfl
  | cons entry rest => cases rest <;> rfl

/-- Where an integer of 64 signed bits is admitted, so is every integer of the range. -/
theorem admits_fill (around : Around kind schema fill) (ranged : kind.range? = some (low, high))
    (signed : Number.int64Min ≤ number ∧ number ≤ Number.int64Max)
    (within : low ≤ other ∧ other ≤ high)
    (admitted : schema.admits (fill (.ofInt number)) nullable presence = true) :
    schema.admits (fill (.ofInt other)) nullable presence = true := by
  induction around generalizing nullable presence with
  | here => exact (admits_ofInt_iff ranged).mpr within
  | element inside ih =>
      obtain ⟨first, here, last⟩ := admits_array_fill.mp admitted
      exact admits_array_fill.mpr ⟨first, ih here, last⟩
  | @entry shape key node fill before after found inside ih =>
      simp only [admits, Json.conforms, Bool.and_eq_true, Option.isNone_iff_eq_none,
        entriesConform_fill found] at admitted ⊢
      obtain ⟨⟨plain, first, here, last⟩, given⟩ := admitted
      refine ⟨⟨extendedKind?_fill inside signed plain, first, ih here, last⟩, ?_⟩
      simp only [Shape.requiredPresent] at given ⊢
      simpa only [@has_fill _ (fill (.ofInt other)) _ _ _ (fill (.ofInt number))] using given

/-! ### Values that are compared with elements -/

/-- A value with a place in an element is no array of such elements. -/
theorem array_not_admits (around : Around kind schema fill) :
    (array schema).admits (fill (.ofInt number)) nullable presence = false := by
  induction around generalizing nullable presence with
  | here => rfl
  | element inside ih =>
      apply Bool.eq_false_iff.mpr
      intro admitted
      have inner := (admits_array_fill.mp admitted).2.1
      rw [ih] at inner
      contradiction
  | entry found inside => rfl

theorem element_not_admits (around : Around kind element fill)
    (ranged : kind.range? = some (low, high)) {before after : List Json} :
    element.admits (.array (before ++ fill (.ofInt number) :: after)) nullable presence =
      false := by
  induction around generalizing nullable presence before after with
  | here =>
      rcases range?_cases ranged with ⟨rfl, _⟩ | ⟨rfl, _⟩ <;> rfl
  | element inside ih =>
      apply Bool.eq_false_iff.mpr
      intro admitted
      have inner := (admits_array_fill.mp admitted).2.1
      rw [ih] at inner
      contradiction
  | entry found inside => rfl

end Schema

end DocTyping
