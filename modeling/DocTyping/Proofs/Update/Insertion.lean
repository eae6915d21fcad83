import DocTyping.Proofs.Literal.Widening
import DocTyping.Proofs.Relaxation.Paths
import DocTyping.Proofs.Update.Identity

namespace DocTyping

/-!
# Insertions as writes

What `$setOnInsert` writes outside `_id`, `$set` writes there too: `$set` also takes paths with
placeholders, and it lets a document written at a place leave out `_id`.
-/

namespace UpdateOperator

def write : UpdateOperator := ⟨"$set", .any, true, false, .value⟩

def insertion : UpdateOperator := ⟨"$setOnInsert", .any, false, false, .insertValue⟩

theorem named?_write : named? "$set" = some write := rfl

theorem named?_insertion : named? "$setOnInsert" = some insertion := rfl

end UpdateOperator

def OutsideIdentity (entries : List (String × Json)) : Prop :=
  ∀ entry ∈ entries, ∀ path, FieldPath.parse entry.1 = .ok path → path.head? ≠ some "_id"

variable {config : Configuration} {options : ResolveOptions} {root : Schema} {path : FieldPath}
  {target : UpdateTarget} {payload : Json} {entry : String × Json} {targets : List FieldPath}
  {entries before after : List (String × Json)} {steps rest : List Segment}
  {here next goal : Arrival} {count : Nat}

theorem Move.permit (move : Move false steps here rest next) : Move true steps here rest next := by
  cases move with
  | index array => exact .index array
  | placeholder allowed _ => contradiction
  | skip array => exact .skip array
  | field spelled object found => exact .field spelled object found

theorem Walks.permit (walks : Walks false steps here count goal) :
    Walks true steps here count goal := by
  induction walks with
  | arrived => exact .arrived
  | stopped unknown plain => exact .stopped unknown plain
  | next first _ ih => exact .next first.permit ih

/-- A path that resolves without placeholders resolves where they are allowed. -/
theorem FieldPath.resolve_permit :
    Grants (path.resolve root { options with allowPlaceholders := false })
      (path.resolve root { options with allowPlaceholders := true }) := by
  intro resolved reached
  obtain ⟨filled, moves, within, goal, walks, made⟩ := FieldPath.resolve_eq_ok_iff.mp reached
  exact FieldPath.resolve_eq_ok_iff.mpr ⟨filled, moves, within, goal, walks.permit, made⟩

theorem resolveTarget_permit :
    Grants (resolveTarget root path { options with allowPlaceholders := false })
      (resolveTarget root path { options with allowPlaceholders := true }) :=
  .head (.mapError FieldPath.resolve_permit)

theorem checkTarget_write (outside : path.head? ≠ some "_id")
    (addressed : checkTarget config root .insertion path = .ok target) :
    checkTarget config root .write path = .ok target := by
  obtain ⟨_, resolves, _⟩ := checkTarget_eq_ok.mp addressed
  exact checkTarget_eq_ok.mpr
    ⟨fun identity => outside identity.1, resolveTarget_permit target resolves, rfl, nofun⟩

/-- A payload that is a complete value is a value, whatever fields a value may leave out. -/
theorem check_write
    (complete : UpdatePayload.insertValue.check config "$setOnInsert" target payload = .ok ()) :
    UpdatePayload.value.check config "$set" target payload = .ok () :=
  expectConforming_eq_ok.mpr
    (Schema.admits_of_full target.node (expectConforming_eq_ok.mp complete))

theorem entryTargets_write
    (outside : ∀ path, FieldPath.parse entry.1 = .ok path → path.head? ≠ some "_id")
    (accepted : entryTargets config root .insertion entry = .ok targets) :
    entryTargets config root .write entry = .ok targets := by
  obtain ⟨path, target, parsed, addressed, complete, written⟩ := entryTargets_eq_ok.mp accepted
  exact entryTargets_eq_ok.mpr ⟨path, target, parsed,
    checkTarget_write (outside path parsed) addressed, check_write complete, written⟩

theorem operatorTargets_write (outside : OutsideIdentity entries)
    (accepted : operatorTargets config root ("$setOnInsert", .object entries) = .ok targets) :
    operatorTargets config root ("$set", .object entries) = .ok targets := by
  obtain ⟨each, written⟩ := (operatorTargets_eq_ok UpdateOperator.named?_insertion).mp accepted
  refine (operatorTargets_eq_ok UpdateOperator.named?_write).mpr ⟨?_, written⟩
  intro entry member
  obtain ⟨some, inserted⟩ := each entry member
  exact ⟨some, entryTargets_write (outside entry member) inserted⟩

/-- In an accepted update, an insertion outside `_id` may be replaced by a write. -/
theorem checkUpdate_write (outside : OutsideIdentity entries)
    (accepted : (Json.object (before ++ ("$setOnInsert", .object entries) :: after)).checkUpdate
      config root = .ok ()) :
    (Json.object (before ++ ("$set", .object entries) :: after)).checkUpdate config root =
      .ok () := by
  obtain ⟨operators, stated, _, each, apart⟩ := checkUpdate_eq_ok.mp accepted
  cases stated
  obtain ⟨targets, inserted⟩ := each _ (List.mem_append_right before List.mem_cons_self)
  have written := operatorTargets_write outside inserted
  refine checkUpdate_eq_ok.mpr ⟨_, rfl, by simp, ?_, ?_⟩
  · intro operator member
    rcases List.mem_append.mp member with first | last
    · exact each operator (List.mem_append_left _ first)
    · rcases List.mem_cons.mp last with rfl | later
      · exact ⟨targets, written⟩
      · exact each operator (List.mem_append_right _ (List.mem_cons_of_mem _ later))
  · rw [List.flatMap_append, List.flatMap_cons, found_of_eq_ok inserted] at apart
    rw [List.flatMap_append, List.flatMap_cons, found_of_eq_ok written]
    exact apart

/-- A wider schema admits whatever a narrower one does, under every flag and with the same fields
given; a value with every field given is also one that may leave out fields; and so a write takes
every payload that an insertion takes outside `_id`. -/
theorem acceptance_widens :
    (∀ left right, Relation.ReflTransGen Schema.Widens left right → ∀ value nullable presence,
      left.admits value nullable presence = true → right.admits value nullable presence = true) ∧
    (∀ (schema : Schema) value nullable, schema.admits value nullable .full = true →
      schema.admits value nullable .identifier = true) ∧
    ∀ config root before entries after, OutsideIdentity entries →
      (Json.object (before ++ ("$setOnInsert", .object entries) :: after)).checkUpdate
        config root = .ok () →
      (Json.object (before ++ ("$set", .object entries) :: after)).checkUpdate config root =
        .ok () :=
  ⟨fun _ _ => Schema.below_of_widened, fun schema _ _ => Schema.admits_of_full schema,
    fun _ _ _ _ _ => checkUpdate_write⟩

/-- Parcels with a weight, and what was seen of them on the way. -/
def parcelsWith (weight : Field Schema) : Schema :=
  .object ⟨[⟨"_id", .string, false, false⟩,
    ⟨"seen", .array (.object ⟨[weight], none⟩), false, false⟩], none⟩

def parcel : Json :=
  .object [("_id", .string "A1"), ("seen", .array [.object [("weight", .number (.integer 3))]])]

/-- The weight of a parcel may become any number, and be left out. -/
theorem acceptance_widens_parcel :
    (parcelsWith ⟨"weight", .scalar .number, true, false⟩).admits parcel false .identifier = true ∧
      (Json.object [("$set", .object [("seen.0.weight", .number (.integer 4))])]).checkUpdate {}
        (parcelsWith ⟨"weight", .scalar .int, false, false⟩) = .ok () := by
  obtain ⟨wider, partly, written⟩ := acceptance_widens
  have inside : ∀ {left right : Schema}, left.Widens right →
      (Schema.object ⟨[⟨"_id", .string, false, false⟩, ⟨"seen", .array left, false, false⟩],
        none⟩).Widens
      (.object ⟨[⟨"_id", .string, false, false⟩, ⟨"seen", .array right, false, false⟩], none⟩) :=
    fun inside => .field [_] [] none "seen" false false inside.element
  have widened : Relation.ReflTransGen Schema.Widens
      (parcelsWith ⟨"weight", .scalar .int, false, false⟩)
      (parcelsWith ⟨"weight", .scalar .number, true, false⟩) :=
    .tail (.single (inside (.field [] [] none "weight" false false (.kind (.number rfl)))))
      (inside (.optional [] [] none "weight" (.scalar .number) false))
  refine ⟨partly _ _ _ (wider _ _ widened _ _ _ (by decide +kernel)), ?_⟩
  refine written {} _ [] _ [] ?_ (eq_ok_iff_isOk.mpr (by decide +kernel))
  intro entry member path read
  obtain rfl := List.mem_singleton.mp member
  have parsed : FieldPath.parse "seen.0.weight" =
      .ok ⟨[.name "seen", .index 0, .name "weight"]⟩ := by decide +kernel
  cases read.symm.trans parsed
  decide

end DocTyping
