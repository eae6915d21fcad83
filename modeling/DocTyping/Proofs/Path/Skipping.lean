import DocTyping.Proofs.Path.Walk

namespace DocTyping

/-!
# Skipped and indexed array levels

In front of a name, an index enters an element of an array and no index skips the
array level; both spend one move.  They differ in the flags of the field that holds
the array, which the name overwrites, and in that skipping looks across elements.
-/

/-- Two places with the same schema and, where no step is left, the same flags of the last field. -/
structure Arrival.Beside (steps : List Segment) (here there : Arrival) : Prop where
  node : there.node = here.node
  flags : steps = [] → there.optional = here.optional ∧ there.nullable = here.nullable

/-- Two walks end at the same schema with the same flags of the last field, or for the same
fault. -/
inductive EndsAlike : Except PathFault Arrival → Except PathFault Arrival → Prop
  | arrived {here there : Arrival} (beside : here.Beside [] there) :
      EndsAlike (.ok here) (.ok there)
  | failed {fault : PathFault} : EndsAlike (.error fault) (.error fault)

namespace EndsAlike

variable {first second : Except PathFault Arrival}

theorem succeeds_iff (alike : EndsAlike first second) :
    (∃ goal, first = .ok goal) ↔ ∃ goal, second = .ok goal := by
  cases alike with
  | arrived beside => simp
  | failed => simp

theorem beside {here there : Arrival} (alike : EndsAlike (.ok here) (.ok there)) :
    here.Beside [] there := by
  cases alike with
  | arrived beside => exact beside

end EndsAlike

variable {options : ResolveOptions} {placeholders : Bool} {budget count moves : Nat}
  {steps rest left post : List Segment} {here next there goal : Arrival} {element root : Schema}
  {value : Nat} {text : String} {path : FieldPath}

theorem Move.beside (move : Move placeholders steps here rest next)
    (beside : here.Beside steps there) :
    ∃ counterpart, Move placeholders steps there rest counterpart ∧
      next.Beside rest counterpart := by
  obtain ⟨same, _⟩ := beside
  cases move with
  | index array => exact ⟨_, .index (same.trans array), rfl, fun _ => ⟨rfl, rfl⟩⟩
  | placeholder allowed array =>
      exact ⟨_, .placeholder allowed (same.trans array), rfl, fun _ => ⟨rfl, rfl⟩⟩
  | skip array => exact ⟨_, .skip (same.trans array), rfl, fun none => by contradiction⟩
  | field spelled object found =>
      exact ⟨_, .field spelled (same.trans object) found, rfl, fun _ => ⟨rfl, rfl⟩⟩

/-- Where a walk ends does not depend on the flags with which it starts. -/
theorem walk_endsAlike (beside : here.Beside steps there) :
    EndsAlike (walk options budget steps here) (walk options budget steps there) := by
  induction budget generalizing steps here there with
  | zero =>
      cases steps with
      | nil => exact .arrived beside
      | cons segment rest => exact .failed
  | succ budget ih =>
      cases steps with
      | nil => exact .arrived beside
      | cons segment rest =>
          rcases move_or_end options.allowPlaceholders segment rest here with
            ⟨left, next, move⟩ | ⟨unknown, plain⟩ | ⟨fault, blocks⟩
          · obtain ⟨counterpart, moveToo, onward⟩ := move.beside beside
            rw [walk_of_move move, walk_of_move moveToo]
            exact ih onward
          · rw [walk_of_unknown unknown plain, walk_of_unknown (beside.node.trans unknown) plain]
            exact .arrived ⟨beside.node, fun _ => ⟨rfl, rfl⟩⟩
          · have blocksToo := blocks
            rw [← beside.node] at blocksToo
            rw [walk_of_blocks blocks, walk_of_blocks blocksToo]
            exact .failed

/-- In front of an array, skipping its level ends like indexing it. -/
theorem walk_index_skip (array : here.node = .array element) :
    EndsAlike (walk options budget (.index value :: .name text :: post) here)
      (walk options budget (.name text :: post) here) := by
  cases budget with
  | zero => exact .failed
  | succ budget =>
      rw [walk_of_move (.index array), walk_of_move (.skip array)]
      exact walk_endsAlike ⟨rfl, fun none => by contradiction⟩

theorem Move.keeps (move : Move placeholders steps here rest next) :
    (here.traversedArray = true → next.traversedArray = true) ∧
      (here.inArray = true → next.inArray = true) := by
  cases move with
  | index array => exact ⟨fun _ => rfl, id⟩
  | placeholder _ array | skip array => exact ⟨fun _ => rfl, fun _ => rfl⟩
  | field _ _ _ => exact ⟨id, id⟩

theorem Walks.keeps (walks : Walks placeholders steps here moves there) :
    (here.traversedArray = true → there.traversedArray = true) ∧
      (here.inArray = true → there.inArray = true) := by
  induction walks with
  | arrived => exact ⟨id, id⟩
  | stopped unknown plain => exact ⟨id, id⟩
  | next first _ ih => exact ⟨ih.1 ∘ first.keeps.1, ih.2 ∘ first.keeps.2⟩

/-- A walk that leaves an array by an index or a name has traversed it, and skipping it looks across
its elements. -/
theorem passed_of_walk {segment : Segment} (array : here.node = .array element)
    (walked : walk options budget (segment :: rest) here = .ok goal) :
    goal.traversedArray = true ∧ ∀ text, segment = .name text → goal.inArray = true := by
  obtain ⟨moves, _, walks⟩ := walk_eq_ok_iff.mp walked
  cases walks with
  | stopped unknown _ =>
      rw [array] at unknown
      contradiction
  | next first onward =>
      have kept := onward.keeps
      cases first with
      | index _ => exact ⟨kept.1 rfl, fun _ same => by contradiction⟩
      | placeholder _ _ => exact ⟨kept.1 rfl, fun _ _ => kept.2 rfl⟩
      | skip _ => exact ⟨kept.1 rfl, fun _ _ => kept.2 rfl⟩
      | field _ object _ =>
          rw [array] at object
          contradiction

theorem Move.append (move : Move placeholders steps here rest next) (onward : List Segment) :
    Move placeholders (steps ++ onward) here (rest ++ onward) next := by
  cases move with
  | index array => exact .index array
  | placeholder allowed array => exact .placeholder allowed array
  | skip array => exact .skip array
  | field spelled object found => exact .field spelled object found

/-- A walk that no opaque schema ends can be continued. -/
theorem Walks.moves_append (walks : Walks placeholders steps here moves there)
    (known : there.node ≠ .unknown) (onward : List Segment) :
    Moves placeholders (steps ++ onward) here moves onward there := by
  induction walks with
  | arrived => exact .none
  | stopped unknown _ => exact absurd unknown known
  | next first _ ih => exact .next (first.append onward) (ih known)

theorem walk_of_moves (moved : Moves options.allowPlaceholders steps here count left there) :
    walk options (budget + count) steps here = walk options budget left there := by
  induction moved with
  | none => rfl
  | next first _ ih =>
      rw [← Nat.add_assoc, walk_of_move first]
      exact ih

namespace FieldPath

def onward (path : FieldPath) (steps : List Segment) : FieldPath := ⟨path.segments ++ steps⟩

/-- The steps of a path lead to an array; no steps lead to the root. -/
def EndsAtArray (path : FieldPath) (root : Schema) (options : ResolveOptions) : Prop :=
  (∃ element, path.segments = [] ∧ root = .array element) ∨
    ∃ reached element, path.resolve root options = .ok reached ∧ reached.node = .array element

theorem EndsAtArray.resolve (ends : path.EndsAtArray root options) :
    ∃ budget here element, here.node = .array element ∧ ∀ steps, steps ≠ [] →
      (path.onward steps).resolve root options =
        (path.onward steps).outcome options.checkInArray (walk options budget steps here) := by
  have moved : ∃ moves ≤ options.maxDepth, ∃ here element, here.node = .array element ∧
      ∀ steps, Moves options.allowPlaceholders (path.segments ++ steps) { node := root } moves
        steps here := by
    rcases ends with ⟨element, none, rfl⟩ | ⟨reached, element, resolves, array⟩
    · refine ⟨0, Nat.zero_le _, { node := .array element }, element, rfl, fun steps => ?_⟩
      rw [none]
      exact .none
    · obtain ⟨_, moves, within, here, walks, rfl⟩ := resolve_eq_ok_iff.mp resolves
      have known : here.node ≠ .unknown := by
        intro unknown
        rw [show here.node = .array element from array] at unknown
        contradiction
      exact ⟨moves, within, here, element, array, walks.moves_append known⟩
  obtain ⟨moves, within, here, element, array, moved⟩ := moved
  obtain ⟨budget, depth⟩ := Nat.exists_eq_add_of_le' within
  refine ⟨budget, here, element, array, fun steps some => ?_⟩
  have unfinished : (path.onward steps).segments ≠ [] := List.append_ne_nil_of_right_ne_nil _ some
  rw [resolve_of_ne_nil unfinished, depth]
  exact congrArg _ (walk_of_moves (moved steps))

/-- After an array, a path that skips its level resolves exactly if the path that indexes it does,
within the same depth.  Both reach the same schema with the same flags through an array, and the
one that skips reaches it across elements. -/
theorem resolve_index_skip (ends : path.EndsAtArray root options) (value : Nat) (text : String)
    (post : List Segment) :
    ((∃ indexed,
        (path.onward (.index value :: .name text :: post)).resolve root options = .ok indexed) ↔
      ∃ skipping, (path.onward (.name text :: post)).resolve root options = .ok skipping) ∧
    ∀ indexed skipping,
      (path.onward (.index value :: .name text :: post)).resolve root options = .ok indexed →
      (path.onward (.name text :: post)).resolve root options = .ok skipping →
        skipping.node = indexed.node ∧
        skipping.arrival.optional = indexed.arrival.optional ∧
        skipping.arrival.nullable = indexed.arrival.nullable ∧
        indexed.arrival.traversedArray = true ∧ skipping.arrival.traversedArray = true ∧
        skipping.arrival.inArray = true ∧
        (options.checkInArray = true → skipping.valueType = .array skipping.node) := by
  obtain ⟨budget, here, element, array, resolves⟩ := ends.resolve
  simp only [resolves _ (List.cons_ne_nil _ _), outcome_eq_ok]
  have alike : EndsAlike (walk options budget (.index value :: .name text :: post) here)
    (walk options budget (.name text :: post) here) := walk_index_skip array
  constructor
  · rw [exists_comm, @exists_comm _ Arrival]
    simpa using alike.succeeds_iff
  · intro indexed skipping first second
    obtain ⟨goal, walked, rfl⟩ := first
    obtain ⟨other, walkedToo, rfl⟩ := second
    obtain ⟨passed, _⟩ := passed_of_walk array walked
    obtain ⟨traversed, across⟩ := passed_of_walk array walkedToo
    rw [walked, walkedToo] at alike
    obtain ⟨optional, nullable⟩ := alike.beside.flags rfl
    refine ⟨alike.beside.node, optional, nullable, passed, traversed, across text rfl, ?_⟩
    intro checked
    simp [Resolved.valueType, checked, across text rfl]

def seating : Schema :=
  .object ⟨[⟨"rows", .array (.array (.object ⟨[⟨"label", .string, true, false⟩], none⟩)), false,
    false⟩], none⟩

theorem resolve_index_skip_seating :
    ∃ skipping,
      (onward ⟨[.name "rows"]⟩ [.name "label"]).resolve seating ⟨false, true, 4⟩ = .ok skipping ∧
        skipping.arrival.optional = true ∧ skipping.valueType = .array .string := by
  have ends : EndsAtArray ⟨[.name "rows"]⟩ seating ⟨false, true, 4⟩ := .inr ⟨_, _, rfl, rfl⟩
  have indexed : (onward ⟨[.name "rows"]⟩ [.index 4, .name "label"]).resolve seating
      ⟨false, true, 4⟩ =
        .ok ⟨⟨[.name "rows", .index 4, .name "label"]⟩, ⟨.string, true, true, true, false⟩, true⟩ :=
    rfl
  obtain ⟨succeeds, agree⟩ := resolve_index_skip ends 4 "label" []
  obtain ⟨skipping, resolves⟩ := succeeds.mp ⟨_, indexed⟩
  obtain ⟨same, optional, _, _, _, _, checked⟩ := agree _ _ indexed resolves
  refine ⟨skipping, resolves, optional, ?_⟩
  rw [checked rfl, same]
  rfl

end FieldPath

end DocTyping
