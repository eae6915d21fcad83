import DocTyping.Proofs.Path.Budget
import DocTyping.Proofs.Path.Grammar
import DocTyping.Proofs.Path.Lookup
import DocTyping.Proofs.Path.Skipping

namespace DocTyping

/-!
# Paths continued from a value

A path that goes on with names can be followed at once, or up to some place and then from the
type of the value there.  Both lead to the same type.  They differ in the depth: each part has
the whole depth to itself, but a value found across elements is an array, whose level the names
have to skip.
-/

/-- Where a walk has ended: no step is left, or the next one meets an opaque schema. -/
inductive Halted : List Segment → Arrival → Prop
  | arrived {there : Arrival} : Halted [] there
  | stopped {segment : Segment} {rest : List Segment} {there : Arrival}
      (unknown : there.node = .unknown) (plain : segment.isPlaceholder = false) :
      Halted (segment :: rest) there

variable {placeholders : Bool} {count moves : Nat} {segment : Segment}
  {steps rest left onward : List Segment} {names : List String} {here next there goal : Arrival}
  {found : Found}

theorem Move.of_append (move : Move placeholders (segment :: (rest ++ onward)) here left next) :
    ∃ later, left = later ++ onward ∧ Move placeholders (segment :: rest) here later next := by
  cases move with
  | index array => exact ⟨rest, rfl, .index array⟩
  | placeholder allowed array => exact ⟨rest, rfl, .placeholder allowed array⟩
  | skip array => exact ⟨_ :: rest, rfl, .skip array⟩
  | field spelled object found => exact ⟨rest, rfl, .field spelled object found⟩

theorem Moves.append (moved : Moves placeholders steps here count left there)
    (onward : List Segment) :
    Moves placeholders (steps ++ onward) here count (left ++ onward) there := by
  induction moved with
  | none => exact .none
  | next first _ ih => exact .next (first.append onward) ih

/-- A walk along a path follows the first part of it, up to an opaque schema at most. -/
theorem Walks.halted_of_append (walks : Walks placeholders (steps ++ onward) here moves goal) :
    ∃ count left there, Moves placeholders steps here count left there ∧ Halted left there := by
  generalize whole : steps ++ onward = path at walks
  induction walks generalizing steps with
  | arrived =>
      obtain ⟨rfl, _⟩ := List.append_eq_nil_iff.mp whole
      exact ⟨0, _, _, .none, .arrived⟩
  | stopped unknown plain =>
      cases steps with
      | nil => exact ⟨0, _, _, .none, .arrived⟩
      | cons segment rest =>
          cases whole
          exact ⟨0, _, _, .none, .stopped unknown plain⟩
  | next first _ ih =>
      cases steps with
      | nil => exact ⟨0, _, _, .none, .arrived⟩
      | cons segment rest =>
          cases whole
          obtain ⟨later, rfl, move⟩ := first.of_append
          obtain ⟨count, left, there, moved, halted⟩ := ih rfl
          exact ⟨count + 1, left, there, .next move moved, halted⟩

/-- A place from which names lead on to another one. -/
structure Arrival.Finds (here : Arrival) (names : List String) (found : Found) (goal : Arrival) :
    Prop where
  located : here.field.locate names = some found
  node : goal.node = found.node
  inArray : goal.inArray = (here.inArray || found.across)

theorem Arrival.finds_of_unknown (filled : names ≠ []) (unknown : here.node = .unknown) :
    here.stopOpaque.Finds names ⟨.unknown, true, false, false, 1⟩ here.stopOpaque := by
  obtain ⟨name, rest, rfl⟩ := List.exists_cons_of_ne_nil filled
  exact ⟨Field.locate_unknown unknown, unknown, (Bool.or_false _).symm⟩

/-- Names that are walked after a halted walk are found from where it halted. -/
theorem Halted.finds_of_walks (halted : Halted left there) (filled : names ≠ [])
    (walks : Walks placeholders (left ++ names.map .name) there moves goal) :
    ∃ spent stop found, Walks placeholders left there spent stop ∧
      stop.inArray = there.inArray ∧ spent ≤ moves ∧ found.moves ≤ moves ∧
        stop.Finds names found goal := by
  cases halted with
  | arrived =>
      obtain ⟨found, located, rfl, rfl⟩ := locate_of_walks walks
      exact ⟨0, there, found, .arrived, rfl, Nat.zero_le _, Nat.le_refl _, located, rfl, rfl⟩
  | @stopped segment rest there unknown plain =>
      have stopped : Walks placeholders (segment :: rest ++ names.map .name) there 1
          there.stopOpaque := .stopped unknown plain
      obtain ⟨rfl, same⟩ := walks.needs.unique stopped.needs
      cases same
      exact ⟨1, there.stopOpaque, _, .stopped unknown plain, rfl, Nat.le_refl _, Nat.le_refl _,
        Arrival.finds_of_unknown filled unknown⟩

theorem Halted.walks_of_finds (halted : Halted left there) (filled : names ≠ [])
    (walks : Walks placeholders left there moves here)
    (located : here.field.locate names = some found) :
    ∃ total goal, Walks placeholders (left ++ names.map .name) there total goal ∧
      here.Finds names found goal := by
  cases halted with
  | arrived =>
      obtain ⟨_, same⟩ := walks.needs.unique .arrived
      cases same
      exact ⟨_, _, walks_of_locate located, located, rfl, rfl⟩
  | stopped unknown plain =>
      obtain ⟨_, same⟩ := walks.needs.unique (Walks.stopped unknown plain).needs
      cases same
      have finds := Arrival.finds_of_unknown filled unknown
      obtain rfl := Option.some.inj (finds.located.symm.trans located)
      exact ⟨1, _, .stopped unknown plain, finds⟩

theorem Moves.count_pos (moved : Moves placeholders steps here count left there)
    (outside : here.inArray = false) (inside : there.inArray = true) : 0 < count := by
  cases moved with
  | none =>
      rw [outside] at inside
      contradiction
  | next => omega

namespace Resolved

/-- What names find from the type of a value: an array is put around the place if it was reached
across elements. -/
def fromValue (resolved : Resolved) (found : Found) : Found :=
  if resolved.checkInArray && resolved.arrival.inArray then found.inElements else found

theorem locate_valueType (filled : names ≠ []) (resolved : Resolved) :
    resolved.valueType.asField.locate names =
      (resolved.arrival.field.locate names).map resolved.fromValue := by
  obtain ⟨name, rest, rfl⟩ := List.exists_cons_of_ne_nil filled
  unfold valueType fromValue
  split
  · rw [Field.locate_array rfl]
    rfl
  · rw [Option.map_id']
    rfl

theorem moves_fromValue (resolved : Resolved) (found : Found) :
    (resolved.fromValue found).moves = found.moves ∨
      resolved.arrival.inArray = true ∧ (resolved.fromValue found).moves = found.moves + 1 := by
  unfold fromValue
  split
  · rename_i wrapped
    exact .inr ⟨(Bool.and_eq_true_iff.mp wrapped).2, rfl⟩
  · exact .inl rfl

/-- An array that is put around a place comes back as the array of what is found from there. -/
theorem valueType_fromValue (resolved : Resolved) (path other : FieldPath)
    (finds : resolved.arrival.Finds names found goal) :
    (⟨path, ({ node := resolved.valueType } : Arrival).atFound (resolved.fromValue found),
        resolved.checkInArray⟩ : Resolved).valueType =
      (⟨other, goal, resolved.checkInArray⟩ : Resolved).valueType := by
  obtain ⟨_, node, inArray⟩ := finds
  cases checked : resolved.checkInArray with
  | false => simp [valueType, fromValue, Resolved.node, Arrival.atFound, checked, node]
  | true =>
      cases across : resolved.arrival.inArray <;>
        simp [valueType, fromValue, Resolved.node, Arrival.atFound, Found.inElements, checked,
          across, node, inArray]

end Resolved

namespace FieldPath

variable {text rest : String} {path whole : FieldPath} {root : Schema} {options : ResolveOptions}
  {first second last : Resolved}

theorem parse_dotted (parsed : parse rest = .ok (.ofNames names)) :
    parse (text ++ "." ++ rest) = .ok whole ↔
      ∃ path, parse text = .ok path ∧ whole = path.onward (names.map .name) := by
  have names := parse_iff_parseAll.mp parsed
  rw [parse_iff_parseAll, Text.splitDots_dotted, Segment.parseAll_append_eq_ok]
  constructor
  · intro read
    obtain ⟨first, second, front, back, joined⟩ := read
    obtain rfl := Except.ok.inj (names.symm.trans back)
    exact ⟨⟨first⟩, parse_iff_parseAll.mpr front, congrArg FieldPath.mk joined⟩
  · intro read
    obtain ⟨path, front, rfl⟩ := read
    exact ⟨path.segments, _, parse_iff_parseAll.mp front, names, rfl⟩

theorem names_ne_nil_of_parse (parsed : parse rest = .ok (.ofNames names)) : names ≠ [] := by
  rintro rfl
  exact segments_ne_nil_of_parse parsed rfl

/-- A path that can be walked resolves to where the walk ends, unless the depth cuts it short. -/
theorem resolve_of_walks (started : path.segments ≠ [])
    (walks : Walks options.allowPlaceholders path.segments { node := root } moves goal) :
    path.resolve root options = .ok ⟨path, goal, options.checkInArray⟩ ∨
      path.resolve root options = .error ⟨path.render, .depthExceeded options.maxDepth⟩ := by
  by_cases enough : moves ≤ options.maxDepth
  · exact .inl (resolve_eq_ok_iff.mpr ⟨started, moves, enough, goal, walks, rfl⟩)
  · rw [resolve_of_ne_nil started, walks.needs.short options _ rfl (by omega)]
    exact .inr rfl

/-- A path that resolves also does in two parts, the second one from the type of a value. -/
theorem resolve_parts (started : path.segments ≠ []) (filled : names ≠ [])
    (resolves : (path.onward (names.map .name)).resolve root options = .ok last) :
    ∃ first second, path.resolve root options = .ok first ∧
      (ofNames names).resolve first.valueType options = .ok second ∧
        second.valueType = last.valueType := by
  obtain ⟨_, moves, within, goal, walks, rfl⟩ := resolve_eq_ok_iff.mp resolves
  obtain ⟨count, left, there, moved, halted⟩ := walks.halted_of_append
  obtain ⟨remaining, rfl, later⟩ := walks.after (moved.append (names.map .name))
  obtain ⟨spent, stop, found, walked, inArray, less, fits, finds⟩ :=
    halted.finds_of_walks filled later
  have reached : path.resolve root options = .ok ⟨path, stop, options.checkInArray⟩ :=
    resolve_eq_ok_iff.mpr
      ⟨started, count + spent, by omega, stop, moved.walks walked, rfl⟩
  have located := Resolved.locate_valueType filled ⟨path, stop, options.checkInArray⟩
  rw [finds.located, Option.map_some] at located
  have covered : (Resolved.fromValue ⟨path, stop, options.checkInArray⟩ found).moves ≤
      options.maxDepth := by
    rcases Resolved.moves_fromValue ⟨path, stop, options.checkInArray⟩ found with
      same | ⟨across, more⟩
    · omega
    · -- The array around the value takes a move, but the whole path has come out of that array.
      have moved := moved.count_pos rfl (inArray.symm.trans across)
      omega
  exact ⟨_, _, reached, (resolve_names_iff filled).mpr ⟨_, located, covered, rfl⟩,
    Resolved.valueType_fromValue ⟨path, stop, options.checkInArray⟩ _ _ finds⟩

/-- A path whose two parts resolve, the second one from the type of a value, resolves to the same
type, unless the depth cuts it short. -/
theorem resolve_of_parts (filled : names ≠ []) (reached : path.resolve root options = .ok first)
    (resolves : (ofNames names).resolve first.valueType options = .ok second) :
    (∃ last, (path.onward (names.map .name)).resolve root options = .ok last ∧
        last.valueType = second.valueType) ∨
      (path.onward (names.map .name)).resolve root options =
        .error ⟨(path.onward (names.map .name)).render, .depthExceeded options.maxDepth⟩ := by
  obtain ⟨started, moves, within, stop, walks, rfl⟩ := resolve_eq_ok_iff.mp reached
  obtain ⟨_, located, covered, rfl⟩ := (resolve_names_iff filled).mp resolves
  rw [Resolved.locate_valueType filled, Option.map_eq_some_iff] at located
  obtain ⟨found, located, rfl⟩ := located
  have ended : Walks options.allowPlaceholders (path.segments ++ []) { node := root } moves
      stop := by
    rw [List.append_nil]
    exact walks
  obtain ⟨count, left, there, moved, halted⟩ := ended.halted_of_append
  obtain ⟨remaining, rfl, later⟩ := walks.after moved
  obtain ⟨total, goal, onward, finds⟩ := halted.walks_of_finds filled later located
  have whole : Walks options.allowPlaceholders (path.onward (names.map .name)).segments
      { node := root } (count + total) goal :=
    (moved.append (names.map .name)).walks onward
  have steps : (path.onward (names.map .name)).segments ≠ [] :=
    List.append_ne_nil_of_left_ne_nil started _
  have same :=
    Resolved.valueType_fromValue ⟨path, stop, options.checkInArray⟩ (ofNames names)
      (path.onward (names.map .name)) finds
  exact (resolve_of_walks steps whole).imp_left fun resolved => ⟨_, resolved, same.symm⟩

/-- Names behind an array find what they find in its elements, under the same flags; skipping the
level of the array takes a move, so the depth may cut the whole path short. -/
theorem resolve_elements {element : Schema} (filled : names ≠ [])
    (reached : path.resolve root options = .ok first) (array : first.node = .array element) :
    (∀ last, (path.onward (names.map .name)).resolve root options = .ok last →
      ∃ inner, (ofNames names).resolve element options = .ok inner ∧
        inner.arrival.Beside [] last.arrival) ∧
    ∀ inner, (ofNames names).resolve element options = .ok inner →
      (∃ last, (path.onward (names.map .name)).resolve root options = .ok last ∧
        inner.arrival.Beside [] last.arrival) ∨
      (path.onward (names.map .name)).resolve root options =
        .error ⟨(path.onward (names.map .name)).render, .depthExceeded options.maxDepth⟩ := by
  obtain ⟨started, count, within, there, walks, rfl⟩ := resolve_eq_ok_iff.mp reached
  have known : there.node ≠ .unknown := by
    rw [show there.node = .array element from array]
    exact nofun
  have moved := walks.moves_append known (names.map .name)
  have located : there.field.locate names =
      (element.asField.locate names).map Found.inElements := by
    obtain ⟨name, rest, rfl⟩ := List.exists_cons_of_ne_nil filled
    exact Field.locate_array array
  constructor
  · intro last resolves
    obtain ⟨_, moves, covered, goal, whole, rfl⟩ := resolve_eq_ok_iff.mp resolves
    obtain ⟨remaining, rfl, later⟩ := whole.after moved
    obtain ⟨found, stated, rfl, rfl⟩ := locate_of_walks later
    rw [located, Option.map_eq_some_iff] at stated
    obtain ⟨inside, stated, rfl⟩ := stated
    have less : inside.moves ≤ options.maxDepth := by
      have counted : inside.inElements.moves = inside.moves + 1 := rfl
      omega
    exact ⟨_, (resolve_names_iff filled).mpr ⟨inside, stated, less, rfl⟩, rfl,
      fun _ => ⟨rfl, rfl⟩⟩
  · intro inner resolves
    obtain ⟨inside, stated, _, rfl⟩ := (resolve_names_iff filled).mp resolves
    rw [stated, Option.map_some] at located
    have whole : Walks options.allowPlaceholders (path.onward (names.map .name)).segments
        { node := root } (count + inside.inElements.moves) (there.atFound inside.inElements) :=
      moved.walks (walks_of_locate located)
    have steps : (path.onward (names.map .name)).segments ≠ [] :=
      List.append_ne_nil_of_left_ne_nil started _
    rcases resolve_of_walks steps whole with resolved | short
    · refine .inl ⟨_, resolved, ?_⟩
      exact ⟨rfl, fun _ => ⟨rfl, rfl⟩⟩
    · exact .inr short

end FieldPath

end DocTyping
