import DocTyping.Path.Resolution

namespace DocTyping

/-!
# Walks

A walk makes one move after the other until no step is left or an opaque schema
ends it.  The budget bounds the number of moves and has no other effect, so
resolving is walking with a number of moves that the budget covers.
-/

/-- The key that a step may have in an object. -/
def Segment.key? : Segment → Option String
  | name text => some text
  | index value => some (toString value)
  | placeholder _ => none

/-- One move of a walk: the steps that are left and the place, before and after. -/
inductive Move (placeholders : Bool) :
    List Segment → Arrival → List Segment → Arrival → Prop
  | index {value : Nat} {rest : List Segment} {here : Arrival} {element : Schema}
      (array : here.node = .array element) :
      Move placeholders (.index value :: rest) here rest (here.enterIndex element)
  | placeholder {form : Placeholder} {rest : List Segment} {here : Arrival} {element : Schema}
      (allowed : placeholders = true) (array : here.node = .array element) :
      Move placeholders (.placeholder form :: rest) here rest (here.enterElements element)
  | skip {text : String} {rest : List Segment} {here : Arrival} {element : Schema}
      (array : here.node = .array element) :
      Move placeholders (.name text :: rest) here (.name text :: rest) (here.skipArray element)
  | field {segment : Segment} {key : String} {rest : List Segment} {here : Arrival}
      {shape : Shape Schema} {child : Schema} (spelled : segment.key? = some key)
      (object : here.node = .object shape) (found : shape.child? key = some child) :
      Move placeholders (segment :: rest) here rest (here.enterField shape key child)

inductive Moves (placeholders : Bool) :
    List Segment → Arrival → Nat → List Segment → Arrival → Prop
  | none {steps : List Segment} {here : Arrival} : Moves placeholders steps here 0 steps here
  | next {steps rest left : List Segment} {here next there : Arrival} {count : Nat}
      (first : Move placeholders steps here rest next)
      (onward : Moves placeholders rest next count left there) :
      Moves placeholders steps here (count + 1) left there

/-- A whole walk, with the moves that it spends.  Stopping at an opaque schema spends one. -/
inductive Walks (placeholders : Bool) : List Segment → Arrival → Nat → Arrival → Prop
  | arrived {here : Arrival} : Walks placeholders [] here 0 here
  | stopped {segment : Segment} {rest : List Segment} {here : Arrival}
      (unknown : here.node = .unknown) (plain : segment.isPlaceholder = false) :
      Walks placeholders (segment :: rest) here 1 here.stopOpaque
  | next {steps rest : List Segment} {here next there : Arrival} {count : Nat}
      (first : Move placeholders steps here rest next)
      (onward : Walks placeholders rest next count there) :
      Walks placeholders steps here (count + 1) there

def Schema.Lacks (key : String) : Schema → Prop
  | .object shape => shape.child? key = none
  | .scalar kind => kind ≠ .unknown
  | .array _ => False

/-- A place that stops a walk with a step left, and the fault it is stopped for. -/
inductive Blocks (placeholders : Bool) : Schema → Segment → PathFault → Prop
  | field {node : Schema} {text : String} (lacks : node.Lacks text) :
      Blocks placeholders node (.name text) (.unknownField text)
  | index {node : Schema} {value : Nat} (lacks : node.Lacks (toString value)) :
      Blocks placeholders node (.index value) (.notArray (toString value))
  | elements {node : Schema} {form : Placeholder} (allowed : placeholders = true)
      (single : node.element? = none) :
      Blocks placeholders node (.placeholder form) (.notArray form.render)
  | refused {node : Schema} {form : Placeholder} (forbidden : placeholders = false) :
      Blocks placeholders node (.placeholder form) (.placeholderRefused form.render)

variable {options : ResolveOptions} {placeholders : Bool} {budget count moves : Nat}
  {segment : Segment} {steps rest left : List Segment} {here next there goal : Arrival}
  {fault : PathFault}

theorem walk_of_move (move : Move options.allowPlaceholders steps here rest next) :
    walk options (budget + 1) steps here = walk options budget rest next := by
  cases move with
  | index array => simp [walk, array]
  | placeholder allowed array => simp [walk, array, allowed]
  | skip array => simp [walk, array]
  | @field segment key _ _ _ _ spelled object found =>
      cases segment with
      | name text =>
          cases spelled
          simp only [walk, object, found]
      | index value =>
          cases spelled
          simp only [walk, object, found]
      | placeholder form => contradiction

theorem Blocks.not_depthExceeded {node : Schema} (blocks : Blocks placeholders node segment fault)
    (depth : Nat) : fault ≠ .depthExceeded depth := by
  cases blocks <;> simp

theorem walk_of_blocks (blocks : Blocks options.allowPlaceholders here.node segment fault) :
    walk options (budget + 1) (segment :: rest) here = .error fault := by
  cases node : here.node with
  | array element =>
      rw [node] at blocks
      cases blocks with
      | field lacks => exact lacks.elim
      | index lacks => exact lacks.elim
      | elements _ single => contradiction
      | refused forbidden => simp [walk, node, forbidden, Segment.render]
  | object shape =>
      rw [node] at blocks
      cases blocks with
      | field lacks => simp only [walk, node, show shape.child? _ = none from lacks]
      | index lacks =>
          simp only [walk, node, show shape.child? _ = none from lacks, Segment.render]
      | elements allowed _ => simp [walk, node, allowed, Segment.render]
      | refused forbidden => simp [walk, node, forbidden, Segment.render]
  | scalar kind =>
      rw [node] at blocks
      cases blocks with
      | field lacks => cases kind <;> simp_all [walk, Schema.Lacks]
      | index lacks => cases kind <;> simp_all [walk, Schema.Lacks, Segment.render]
      | elements allowed _ => simp [walk, node, allowed, Segment.render]
      | refused forbidden => simp [walk, node, forbidden, Segment.render]

theorem walk_of_unknown (unknown : here.node = .unknown) (plain : segment.isPlaceholder = false) :
    walk options (budget + 1) (segment :: rest) here = .ok here.stopOpaque := by
  cases segment with
  | placeholder form => contradiction
  | name text => simp [walk, unknown, Schema.unknown]
  | index value => simp [walk, unknown, Schema.unknown]

/-- A step that is left is taken by a move, or the place ends the walk. -/
theorem move_or_end (placeholders : Bool) (segment : Segment) (rest : List Segment)
    (here : Arrival) :
    (∃ left next, Move placeholders (segment :: rest) here left next) ∨
      (here.node = .unknown ∧ segment.isPlaceholder = false) ∨
        ∃ fault, Blocks placeholders here.node segment fault := by
  cases segment with
  | placeholder form =>
      cases placeholders with
      | false => exact .inr (.inr ⟨_, .refused rfl⟩)
      | true =>
          cases node : here.node with
          | array element => exact .inl ⟨_, _, .placeholder rfl node⟩
          | object shape => exact .inr (.inr ⟨_, .elements rfl rfl⟩)
          | scalar kind => exact .inr (.inr ⟨_, .elements rfl rfl⟩)
  | name text =>
      cases node : here.node with
      | array element => exact .inl ⟨_, _, .skip node⟩
      | object shape =>
          cases found : shape.child? text with
          | some child => exact .inl ⟨_, _, .field rfl node found⟩
          | none => exact .inr (.inr ⟨_, .field found⟩)
      | scalar kind =>
          by_cases opaque_ : kind = .unknown
          · exact .inr (.inl ⟨congrArg Schema.scalar opaque_, rfl⟩)
          · exact .inr (.inr ⟨_, .field opaque_⟩)
  | index value =>
      cases node : here.node with
      | array element => exact .inl ⟨_, _, .index node⟩
      | object shape =>
          cases found : shape.child? (toString value) with
          | some child => exact .inl ⟨_, _, .field rfl node found⟩
          | none => exact .inr (.inr ⟨_, .index found⟩)
      | scalar kind =>
          by_cases opaque_ : kind = .unknown
          · exact .inr (.inl ⟨congrArg Schema.scalar opaque_, rfl⟩)
          · exact .inr (.inr ⟨_, .index opaque_⟩)

/-- A step that is left is taken by a move, unless an opaque schema ends the walk. -/
theorem walk_cons_eq_ok (walked : walk options (budget + 1) (segment :: rest) here = .ok goal) :
    (∃ left next, Move options.allowPlaceholders (segment :: rest) here left next ∧
        walk options budget left next = .ok goal) ∨
      (here.node = .unknown ∧ segment.isPlaceholder = false ∧ here.stopOpaque = goal) := by
  rcases move_or_end options.allowPlaceholders segment rest here with
    ⟨left, next, move⟩ | ⟨unknown, plain⟩ | ⟨fault, blocks⟩
  · rw [walk_of_move move] at walked
    exact .inl ⟨left, next, move, walked⟩
  · rw [walk_of_unknown unknown plain] at walked
    cases walked
    exact .inr ⟨unknown, plain, rfl⟩
  · rw [walk_of_blocks blocks] at walked
    contradiction

theorem walk_eq_ok_iff :
    walk options budget steps here = .ok goal ↔
      ∃ moves ≤ budget, Walks options.allowPlaceholders steps here moves goal := by
  constructor
  · intro walked
    induction budget generalizing steps here with
    | zero =>
        cases steps with
        | nil =>
            cases walked
            exact ⟨0, Nat.le_refl 0, .arrived⟩
        | cons segment rest => contradiction
    | succ budget ih =>
        cases steps with
        | nil =>
            cases walked
            exact ⟨0, Nat.zero_le _, .arrived⟩
        | cons segment rest =>
            rcases walk_cons_eq_ok walked with ⟨left, next, move, onward⟩ | ⟨unknown, plain, rfl⟩
            · obtain ⟨moves, within, walks⟩ := ih onward
              exact ⟨moves + 1, Nat.succ_le_succ within, .next move walks⟩
            · exact ⟨1, by omega, .stopped unknown plain⟩
  · rintro ⟨moves, within, walks⟩
    induction walks generalizing budget with
    | arrived => cases budget <;> rfl
    | @stopped segment rest here unknown plain =>
        obtain ⟨budget, rfl⟩ := Nat.exists_eq_add_of_le' within
        exact walk_of_unknown unknown plain
    | next first _ ih =>
        obtain ⟨budget, rfl⟩ := Nat.exists_eq_add_of_le' (Nat.le_trans (Nat.le_add_left 1 _) within)
        rw [walk_of_move first]
        exact ih (by omega)

theorem Move.unique {otherRest : List Segment} {other : Arrival}
    (first : Move placeholders steps here rest next)
    (second : Move placeholders steps here otherRest other) :
    rest = otherRest ∧ next = other := by
  cases first with
  | index array =>
      cases second with
      | index again => exact ⟨rfl, by simp_all⟩
      | field _ object _ => simp [array] at object
  | placeholder allowed array =>
      cases second with
      | placeholder _ again => exact ⟨rfl, by simp_all⟩
      | field _ object _ => simp [array] at object
  | skip array =>
      cases second with
      | skip again => exact ⟨rfl, by simp_all⟩
      | field _ object _ => simp [array] at object
  | field spelled object found =>
      cases second with
      | field spelledAgain objectAgain foundAgain => exact ⟨rfl, by simp_all⟩
      | index array => simp [object] at array
      | placeholder _ array => simp [object] at array
      | skip array => simp [object] at array

theorem Walks.after (walks : Walks placeholders steps here moves there)
    (moved : Moves placeholders steps here count rest next) :
    ∃ remaining, moves = count + remaining ∧ Walks placeholders rest next remaining there := by
  induction moved generalizing moves with
  | none => exact ⟨moves, by simp, walks⟩
  | next first _ ih =>
      cases walks with
      | arrived => cases first
      | stopped unknown plain =>
          exfalso
          cases first <;> simp_all [Schema.unknown]
      | next move onward =>
          obtain ⟨rfl, rfl⟩ := first.unique move
          obtain ⟨remaining, rfl, walks⟩ := ih onward
          exact ⟨remaining, by omega, walks⟩

def FieldPath.outcome (path : FieldPath) (checkInArray : Bool) :
    Except PathFault Arrival → Except PathError Resolved
  | .ok arrival => .ok ⟨path, arrival, checkInArray⟩
  | .error fault => .error ⟨path.render, fault⟩

theorem FieldPath.resolve_of_ne_nil {path : FieldPath} {root : Schema}
    (steps : path.segments ≠ []) :
    path.resolve root options = path.outcome options.checkInArray
      (walk options options.maxDepth path.segments { node := root }) := by
  unfold FieldPath.resolve
  rw [if_neg (by simpa using steps)]
  rfl

theorem FieldPath.outcome_eq_ok {path : FieldPath} {checkInArray : Bool} {resolved : Resolved}
    {walked : Except PathFault Arrival} :
    path.outcome checkInArray walked = .ok resolved ↔
      ∃ goal, walked = .ok goal ∧ resolved = ⟨path, goal, checkInArray⟩ := by
  cases walked with
  | error fault => simp [outcome]
  | ok goal => simp [outcome, eq_comm]

theorem FieldPath.resolve_eq_ok_iff {path : FieldPath} {root : Schema} {resolved : Resolved} :
    path.resolve root options = .ok resolved ↔
      path.segments ≠ [] ∧ ∃ moves ≤ options.maxDepth, ∃ goal,
        Walks options.allowPlaceholders path.segments { node := root } moves goal ∧
          resolved = ⟨path, goal, options.checkInArray⟩ := by
  by_cases empty : path.segments = []
  · simp [FieldPath.resolve, empty]
  · rw [resolve_of_ne_nil empty, outcome_eq_ok]
    constructor
    · intro reached
      obtain ⟨goal, walked, made⟩ := reached
      obtain ⟨moves, within, walks⟩ := walk_eq_ok_iff.mp walked
      exact ⟨empty, moves, within, goal, walks, made⟩
    · intro reached
      obtain ⟨_, moves, within, goal, walks, made⟩ := reached
      exact ⟨goal, walk_eq_ok_iff.mpr ⟨moves, within, walks⟩, made⟩

end DocTyping
