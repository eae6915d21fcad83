import DocTyping.Proofs.Path.Walk
import DocTyping.Proofs.Schema.NamesFit

namespace DocTyping

/-!
# The depth that a path needs

Every move leads to a part of the schema, so a walk ends after some number of moves.
It needs a budget for these, and for one more if it ends with a step left.  Within
a smaller budget it is cut short, and a larger one changes nothing.
-/

/-- Steps followed from a schema to another, up to those that are left: the number of steps that
are taken and of array levels that are skipped. -/
inductive Passage (placeholders : Bool) :
    List Segment → Schema → Nat → Nat → List Segment → Schema → Prop
  | here {steps : List Segment} {node : Schema} : Passage placeholders steps node 0 0 steps node
  | field {segment : Segment} {key : String} {rest left : List Segment} {shape : Shape Schema}
      {child goal : Schema} {taken skipped : Nat} (spelled : segment.key? = some key)
      (found : shape.child? key = some child)
      (onward : Passage placeholders rest child taken skipped left goal) :
      Passage placeholders (segment :: rest) (.object shape) (taken + 1) skipped left goal
  | index {value : Nat} {rest left : List Segment} {element goal : Schema} {taken skipped : Nat}
      (onward : Passage placeholders rest element taken skipped left goal) :
      Passage placeholders (.index value :: rest) (.array element) (taken + 1) skipped left goal
  | placeholder {form : Placeholder} {rest left : List Segment} {element goal : Schema}
      {taken skipped : Nat} (allowed : placeholders = true)
      (onward : Passage placeholders rest element taken skipped left goal) :
      Passage placeholders (.placeholder form :: rest) (.array element) (taken + 1) skipped left
        goal
  | skip {text : String} {rest left : List Segment} {element goal : Schema} {taken skipped : Nat}
      (onward : Passage placeholders (.name text :: rest) element taken skipped left goal) :
      Passage placeholders (.name text :: rest) (.array element) taken (skipped + 1) left goal

/-- A walk has an outcome within a budget of at least some size, and is cut short within a smaller
one. -/
structure Needs (placeholders : Bool) (steps : List Segment) (here : Arrival) (threshold : Nat)
    (outcome : Except PathFault Arrival) : Prop where
  settled : ∀ depth, outcome ≠ .error (.depthExceeded depth)
  enough : ∀ (options : ResolveOptions) (budget : Nat), options.allowPlaceholders = placeholders →
    threshold ≤ budget → walk options budget steps here = outcome
  short : ∀ (options : ResolveOptions) (budget : Nat), options.allowPlaceholders = placeholders →
    budget < threshold →
      walk options budget steps here = .error (.depthExceeded options.maxDepth)

variable {placeholders : Bool} {count moves remaining threshold other : Nat} {segment : Segment}
  {steps rest left : List Segment} {here next there : Arrival} {node goal : Schema}
  {outcome another : Except PathFault Arrival} {taken skipped : Nat}

namespace Needs

theorem arrived : Needs placeholders [] here 0 (.ok here) where
  settled := by simp
  enough options budget _ _ := by cases budget <;> rfl
  short options budget _ less := absurd less (Nat.not_lt_zero budget)

/-- A walk that ends with a step left, whatever the options, has looked at this step. -/
theorem ended (settled : ∀ depth, outcome ≠ .error (.depthExceeded depth))
    (ends : ∀ (options : ResolveOptions) (budget : Nat), options.allowPlaceholders = placeholders →
      walk options (budget + 1) (segment :: rest) here = outcome) :
    Needs placeholders (segment :: rest) here 1 outcome where
  settled := settled
  enough options budget same more := by
    obtain ⟨budget, rfl⟩ := Nat.exists_eq_add_of_le' more
    exact ends options budget same
  short options budget _ less := by
    obtain rfl : budget = 0 := by omega
    rfl

theorem before (move : Move placeholders steps here rest next)
    (onward : Needs placeholders rest next threshold outcome) :
    Needs placeholders steps here (threshold + 1) outcome where
  settled := onward.settled
  enough options budget same more := by
    obtain ⟨budget, rfl⟩ := Nat.exists_eq_add_of_le' (Nat.le_trans (Nat.le_add_left 1 _) more)
    rw [walk_of_move (same ▸ move)]
    exact onward.enough options budget same (by omega)
  short options budget same less := by
    cases budget with
    | zero =>
        cases steps with
        | nil => cases move
        | cons segment rest => rfl
    | succ budget =>
        rw [walk_of_move (same ▸ move)]
        exact onward.short options budget same (by omega)

theorem not_lt (first : Needs placeholders steps here threshold outcome)
    (second : Needs placeholders steps here other another) : ¬ threshold < other := by
  intro less
  have reached := first.enough { allowPlaceholders := placeholders } threshold rfl (Nat.le_refl _)
  have cut := second.short { allowPlaceholders := placeholders } threshold rfl less
  exact first.settled _ (reached.symm.trans cut)

theorem unique (first : Needs placeholders steps here threshold outcome)
    (second : Needs placeholders steps here other another) :
    threshold = other ∧ outcome = another := by
  have same : threshold = other := by
    have notLess := first.not_lt second
    have notMore := second.not_lt first
    omega
  subst same
  have reached := first.enough { allowPlaceholders := placeholders } threshold rfl (Nat.le_refl _)
  have again := second.enough { allowPlaceholders := placeholders } threshold rfl (Nat.le_refl _)
  exact ⟨rfl, reached.symm.trans again⟩

end Needs

theorem Move.sizeOf_lt (move : Move placeholders steps here rest next) :
    sizeOf next.node < sizeOf here.node := by
  cases move with
  | index array | placeholder _ array | skip array =>
      rw [array]
      simp [Arrival.enterIndex, Arrival.enterElements, Arrival.skipArray]
  | field spelled object found =>
      rw [object, Schema.object.sizeOf_spec]
      rcases Shape.child?_eq_some found with ⟨field, member, _, rfl⟩ | admitted
      · have smaller := Schema.sizeOf_field_lt member
        simp only [Arrival.enterField]
        omega
      · have smaller := Schema.sizeOf_additional_lt admitted
        simp only [Arrival.enterField]
        omega

theorem exists_needs (placeholders : Bool) (steps : List Segment) (here : Arrival) :
    ∃ threshold outcome, Needs placeholders steps here threshold outcome := by
  cases steps with
  | nil => exact ⟨0, .ok here, .arrived⟩
  | cons segment rest =>
      rcases move_or_end placeholders segment rest here with
        ⟨left, next, move⟩ | ⟨unknown, plain⟩ | ⟨fault, blocks⟩
      · have smaller := move.sizeOf_lt
        obtain ⟨threshold, outcome, onward⟩ := exists_needs placeholders left next
        exact ⟨threshold + 1, outcome, .before move onward⟩
      · exact ⟨1, .ok here.stopOpaque, .ended (by simp) fun _ _ _ => walk_of_unknown unknown plain⟩
      · refine ⟨1, .error fault, .ended ?_ fun _ _ same => walk_of_blocks (same ▸ blocks)⟩
        intro depth same
        cases same
        exact blocks.not_depthExceeded depth rfl
termination_by sizeOf here.node

theorem Walks.needs (walks : Walks placeholders steps here moves there) :
    Needs placeholders steps here moves (.ok there) := by
  induction walks with
  | arrived => exact .arrived
  | stopped unknown plain =>
      exact .ended (by simp) fun _ _ _ => walk_of_unknown unknown plain
  | next first _ ih => exact .before first ih

theorem Moves.walks (moved : Moves placeholders steps here count rest next)
    (onward : Walks placeholders rest next remaining there) :
    Walks placeholders steps here (count + remaining) there := by
  induction moved with
  | none => simpa using onward
  | next first _ ih =>
      rw [Nat.add_right_comm]
      exact .next first (ih onward)

/-- A passage is followed by moves, one for each step and for each skipped level. -/
theorem Passage.moved (passage : Passage placeholders steps node taken skipped left goal)
    (here : Arrival) (arrived : here.node = node) :
    ∃ there, there.node = goal ∧ Moves placeholders steps here (taken + skipped) left there := by
  induction passage generalizing here with
  | here => exact ⟨here, arrived, .none⟩
  | field spelled found _ ih =>
      obtain ⟨there, reached, moved⟩ := ih (here.enterField _ _ _) rfl
      rw [Nat.add_right_comm]
      exact ⟨there, reached, .next (.field spelled arrived found) moved⟩
  | index _ ih =>
      obtain ⟨there, reached, moved⟩ := ih (here.enterIndex _) rfl
      rw [Nat.add_right_comm]
      exact ⟨there, reached, .next (.index arrived) moved⟩
  | placeholder allowed _ ih =>
      obtain ⟨there, reached, moved⟩ := ih (here.enterElements _) rfl
      rw [Nat.add_right_comm]
      exact ⟨there, reached, .next (.placeholder allowed arrived) moved⟩
  | skip _ ih =>
      obtain ⟨there, reached, moved⟩ := ih (here.skipArray _) rfl
      exact ⟨there, reached, .next (.skip arrived) moved⟩

theorem Move.passage (move : Move placeholders steps here rest next)
    (onward : Passage placeholders rest next.node taken skipped left goal) :
    ∃ more others, more + others = taken + skipped + 1 ∧
      Passage placeholders steps here.node more others left goal := by
  cases move with
  | index array =>
      rw [array]
      exact ⟨_, _, Nat.add_right_comm taken 1 skipped, .index onward⟩
  | placeholder allowed array =>
      rw [array]
      exact ⟨_, _, Nat.add_right_comm taken 1 skipped, .placeholder allowed onward⟩
  | skip array =>
      rw [array]
      exact ⟨taken, skipped + 1, rfl, .skip onward⟩
  | field spelled object found =>
      rw [object]
      exact ⟨_, _, Nat.add_right_comm taken 1 skipped, .field spelled found onward⟩

/-- A walk follows its steps to their end, or up to one that an opaque schema leaves. -/
theorem Walks.passage (walks : Walks placeholders steps here moves there) :
    (∃ taken skipped, moves = taken + skipped ∧
        Passage placeholders steps here.node taken skipped [] there.node) ∨
      ∃ taken skipped segment left, moves = taken + skipped + 1 ∧
        Passage placeholders steps here.node taken skipped (segment :: left) .unknown := by
  induction walks with
  | arrived => exact .inl ⟨0, 0, rfl, .here⟩
  | stopped unknown plain =>
      rw [unknown]
      exact .inr ⟨0, 0, _, _, rfl, .here⟩
  | next first _ ih =>
      rcases ih with ⟨_, _, rfl, onward⟩ | ⟨_, _, segment, left, rfl, onward⟩
      · obtain ⟨taken, skipped, count, passage⟩ := first.passage onward
        exact .inl ⟨taken, skipped, count.symm, passage⟩
      · obtain ⟨taken, skipped, count, passage⟩ := first.passage onward
        exact .inr ⟨taken, skipped, segment, left, by rw [count], passage⟩

namespace FieldPath

theorem outcome_settled {path : FieldPath} {checkInArray : Bool} {error : PathError}
    (settled : ∀ depth, outcome ≠ .error (.depthExceeded depth))
    (failed : path.outcome checkInArray outcome = .error error) (depth : Nat) :
    error.fault ≠ .depthExceeded depth := by
  cases outcome with
  | ok arrival => contradiction
  | error fault =>
      cases failed
      intro exceeded
      exact settled depth (congrArg Except.error exceeded)

/-- A path resolves within the depth that its walk needs, unless it is empty. -/
theorem resolve_of_needs {path : FieldPath} {root : Schema}
    (needs : Needs placeholders path.segments { node := root } threshold outcome)
    (checkInArray : Bool) :
    ∃ outcome : Except PathError Resolved,
      (∀ error depth, outcome = .error error → error.fault ≠ .depthExceeded depth) ∧
      (∀ maxDepth, threshold ≤ maxDepth →
        path.resolve root ⟨placeholders, checkInArray, maxDepth⟩ = outcome) ∧
      ∀ maxDepth, maxDepth < threshold →
        path.resolve root ⟨placeholders, checkInArray, maxDepth⟩ =
          .error ⟨path.render, .depthExceeded maxDepth⟩ := by
  by_cases empty : path.segments = []
  · have none : threshold = 0 := by
      rw [empty] at needs
      exact (needs.unique .arrived).1
    refine ⟨.error ⟨"", .malformed .emptyPath⟩, ?_, ?_, ?_⟩
    · intro error depth same
      cases same
      simp
    · intro maxDepth _
      simp [resolve, empty]
    · intro maxDepth less
      omega
  · refine ⟨path.outcome checkInArray outcome, ?_, ?_, ?_⟩
    · intro error depth failed
      exact outcome_settled needs.settled failed depth
    · intro maxDepth more
      rw [resolve_of_ne_nil empty, needs.enough _ maxDepth rfl more]
    · intro maxDepth less
      rw [resolve_of_ne_nil empty, needs.short _ maxDepth rfl less]
      rfl

/-- For each path there is a depth from which on resolving it has one and the same outcome, and
below which it is cut short.  If the path is followed to its end, this depth is the number of its
steps and of the array levels that are skipped.  A path that resolves is followed to its end, or up
to a step that an opaque schema leaves, which has been looked at. -/
theorem resolve_threshold (path : FieldPath) (root : Schema) (placeholders : Bool) :
    ∃ threshold,
      (∀ checkInArray, ∃ outcome : Except PathError Resolved,
        (∀ error depth, outcome = .error error → error.fault ≠ .depthExceeded depth) ∧
        (∀ maxDepth, threshold ≤ maxDepth →
          path.resolve root ⟨placeholders, checkInArray, maxDepth⟩ = outcome) ∧
        ∀ maxDepth, maxDepth < threshold →
          path.resolve root ⟨placeholders, checkInArray, maxDepth⟩ =
            .error ⟨path.render, .depthExceeded maxDepth⟩) ∧
      (∀ taken skipped goal, Passage placeholders path.segments root taken skipped [] goal →
        threshold = taken + skipped) ∧
      ∀ checkInArray maxDepth resolved,
        path.resolve root ⟨placeholders, checkInArray, maxDepth⟩ = .ok resolved →
          (∃ taken skipped, threshold = taken + skipped ∧
              Passage placeholders path.segments root taken skipped [] resolved.node) ∨
            ∃ taken skipped segment left, threshold = taken + skipped + 1 ∧
              Passage placeholders path.segments root taken skipped (segment :: left) .unknown := by
  obtain ⟨threshold, outcome, needs⟩ := exists_needs placeholders path.segments { node := root }
  refine ⟨threshold, resolve_of_needs needs, ?_, ?_⟩
  · intro taken skipped goal passage
    obtain ⟨there, _, moved⟩ := passage.moved { node := root } rfl
    exact (needs.unique (moved.walks .arrived).needs).1
  · intro checkInArray maxDepth resolved resolves
    obtain ⟨_, moves, _, there, walks, rfl⟩ := resolve_eq_ok_iff.mp resolves
    rw [(needs.unique walks.needs).1]
    exact walks.passage

def tours : Schema :=
  .object
    ⟨[⟨"stops", .array (.object ⟨[⟨"name", .string, false, false⟩], none⟩), false, false⟩], none⟩

def stopNames : FieldPath := ⟨[.name "stops", .name "name"]⟩

theorem resolve_threshold_tours (maxDepth : Nat) :
    (∃ resolved, stopNames.resolve tours ⟨false, false, maxDepth⟩ = .ok resolved) ↔
      3 ≤ maxDepth := by
  have passage : Passage false stopNames.segments tours 2 1 [] .string :=
    .field rfl rfl (.skip (.field rfl rfl .here))
  obtain ⟨threshold, settles, counts, _⟩ := resolve_threshold stopNames tours false
  obtain rfl := counts 2 1 .string passage
  obtain ⟨outcome, _, enough, short⟩ := settles false
  have reached : ∃ resolved, outcome = .ok resolved := ⟨_, (enough 3 (Nat.le_refl 3)).symm⟩
  constructor
  · intro resolves
    obtain ⟨resolved, resolves⟩ := resolves
    by_contra less
    rw [short maxDepth (by omega)] at resolves
    contradiction
  · intro more
    rw [enough maxDepth more]
    exact reached

end FieldPath

end DocTyping
