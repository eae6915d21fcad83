import DocTyping.Path.Pattern

namespace DocTyping

/-!
# Routes

A route follows a pattern through a schema.  The listed patterns are the routes
that end with a step and make no more moves than the budget covers.
-/

/-- A pattern followed through a schema, with the number of moves and the place reached. -/
inductive Route (placeholders : Bool) : List PatternSegment → Schema → Nat → Schema → Prop
  | arrived {node : Schema} : Route placeholders [] node 0 node
  | field {field : Field Schema} {shape : Shape Schema} {rest : List PatternSegment}
      {moves : Nat} {goal : Schema} (member : field ∈ shape.fields)
      (onward : Route placeholders rest field.node moves goal) :
      Route placeholders (.name field.name :: rest) (.object shape) (moves + 1) goal
  | key {shape : Shape Schema} {node goal : Schema} {rest : List PatternSegment} {moves : Nat}
      (admitted : shape.additional = some node)
      (onward : Route placeholders rest node moves goal) :
      Route placeholders (.anyKey :: rest) (.object shape) (moves + 1) goal
  | element {step : PatternSegment} {rest : List PatternSegment} {element goal : Schema}
      {moves : Nat} (enters : step ∈ Schema.elementSteps placeholders)
      (onward : Route placeholders rest element moves goal) :
      Route placeholders (step :: rest) (.array element) (moves + 1) goal
  | skip {step : PatternSegment} {rest : List PatternSegment} {element goal : Schema}
      {moves : Nat} (onward : Route placeholders (step :: rest) element moves goal) :
      Route placeholders (step :: rest) (.array element) (moves + 1) goal

section FirstOccurrences

variable {α : Type} [BEq α] [LawfulBEq α] {item : α}

/-- What was kept before stays, and each item is kept once it has been passed. -/
private theorem mem_keepFirst (items kept : List α) :
    item ∈ items.foldl
        (fun kept other => if kept.contains other then kept else other :: kept) kept ↔
      item ∈ items ∨ item ∈ kept := by
  induction items generalizing kept with
  | nil => simp
  | cons first rest ih =>
      rw [List.foldl_cons, ih, List.mem_cons]
      by_cases repeated : first ∈ kept
      · have found : kept.contains first = true := by simpa using repeated
        rw [if_pos found]
        constructor
        · rintro (later | earlier)
          · exact .inl (.inr later)
          · exact .inr earlier
        · rintro ((rfl | later) | earlier)
          · exact .inr repeated
          · exact .inl later
          · exact .inr earlier
      · have absent : ¬ kept.contains first = true := by simpa using repeated
        rw [if_neg absent, List.mem_cons, or_left_comm, or_assoc]

theorem Schema.mem_firstOccurrences {items : List α} :
    item ∈ firstOccurrences items ↔ item ∈ items := by
  rw [firstOccurrences, List.mem_reverse, mem_keepFirst]
  simp

end FirstOccurrences

variable {placeholders : Bool} {budget moves : Nat} {node goal : Schema}
  {step : PatternSegment} {tail above pattern : List PatternSegment}

theorem mem_patternsBelow_step {child : Schema}
    (onward : tail ≠ [] → (above ++ [step]) ++ tail ∈
      Schema.patternsBelow placeholders budget child (above ++ [step])) :
    above ++ step :: tail ∈
      (above ++ [step]) :: Schema.patternsBelow placeholders budget child (above ++ [step]) := by
  by_cases last : tail = []
  · rw [last]
    exact List.mem_cons_self
  · rw [List.append_cons above step tail]
    exact List.mem_cons_of_mem _ (onward last)

theorem Schema.patternsBelow_array {element : Schema} (inside : above ≠ []) :
    patternsBelow placeholders (budget + 1) (.array element) above =
      ((elementSteps placeholders).flatMap fun step =>
          (above ++ [step]) :: patternsBelow placeholders budget element (above ++ [step])) ++
        patternsBelow placeholders budget element above := by
  rw [patternsBelow, if_neg (by simpa using inside)]

theorem above_ne_nil_of_array {element : Schema}
    (entered : above = [] → (Schema.array element).isObject = true) : above ≠ [] := by
  intro top
  simpa [Schema.isObject, Schema.shape?] using entered top

/-- A route that ends with a step is listed, wherever an array may be entered. -/
theorem Route.listed (route : Route placeholders tail node moves goal) (spare : Nat)
    (ends : tail ≠ []) (entered : above = [] → node.isObject = true) :
    above ++ tail ∈ Schema.patternsBelow placeholders (spare + moves) node above := by
  induction route generalizing above with
  | arrived => contradiction
  | @field field shape rest moves goal member _ ih =>
      refine List.mem_append_left _ (List.mem_flatMap.mpr ⟨field, member, ?_⟩)
      exact mem_patternsBelow_step fun more => ih more (by simp)
  | @key shape node goal rest moves admitted _ ih =>
      refine List.mem_append_right _ ?_
      rw [admitted]
      exact mem_patternsBelow_step fun more => ih more (by simp)
  | @element step rest element goal moves enters _ ih =>
      rw [← Nat.add_assoc, Schema.patternsBelow_array (above_ne_nil_of_array entered)]
      refine List.mem_append_left _ (List.mem_flatMap.mpr ⟨step, enters, ?_⟩)
      exact mem_patternsBelow_step fun more => ih more (by simp)
  | @skip step rest element goal moves _ ih =>
      have inside := above_ne_nil_of_array entered
      rw [← Nat.add_assoc, Schema.patternsBelow_array inside]
      exact List.mem_append_right _ (ih ends fun top => absurd top inside)

/-- What a step adds to the listed patterns is a route through it. -/
theorem route_of_mem_step {child : Schema}
    (below : ∀ {above}, pattern ∈ Schema.patternsBelow placeholders budget child above →
      ∃ tail moves goal, pattern = above ++ tail ∧ tail ≠ [] ∧ moves ≤ budget ∧
        Route placeholders tail child moves goal)
    (listed : pattern ∈
      (above ++ [step]) :: Schema.patternsBelow placeholders budget child (above ++ [step])) :
    ∃ tail moves goal, pattern = above ++ step :: tail ∧ moves ≤ budget ∧
      Route placeholders tail child moves goal := by
  rcases List.mem_cons.mp listed with rfl | later
  · exact ⟨[], 0, child, rfl, Nat.zero_le _, .arrived⟩
  · obtain ⟨tail, moves, goal, rfl, _, within, route⟩ := below later
    exact ⟨tail, moves, goal, by simp, within, route⟩

theorem route_of_listed (listed : pattern ∈ Schema.patternsBelow placeholders budget node above) :
    ∃ tail moves goal, pattern = above ++ tail ∧ tail ≠ [] ∧ moves ≤ budget ∧
      Route placeholders tail node moves goal := by
  induction budget generalizing node above with
  | zero => simp [Schema.patternsBelow] at listed
  | succ budget ih =>
      cases node with
      | scalar kind => simp [Schema.patternsBelow] at listed
      | object shape =>
          rcases List.mem_append.mp listed with declared | undeclared
          · obtain ⟨field, member, entered⟩ := List.mem_flatMap.mp declared
            obtain ⟨tail, moves, goal, same, within, route⟩ := route_of_mem_step ih entered
            exact ⟨_, _, goal, same, by simp, Nat.succ_le_succ within, .field member route⟩
          · cases admitted : shape.additional with
            | none => simp [admitted] at undeclared
            | some child =>
                rw [admitted] at undeclared
                obtain ⟨tail, moves, goal, same, within, route⟩ := route_of_mem_step ih undeclared
                exact ⟨_, _, goal, same, by simp, Nat.succ_le_succ within, .key admitted route⟩
      | array element =>
          by_cases top : above = []
          · simp [Schema.patternsBelow, top] at listed
          · rw [Schema.patternsBelow_array top] at listed
            rcases List.mem_append.mp listed with inside | past
            · obtain ⟨step, enters, entered⟩ := List.mem_flatMap.mp inside
              obtain ⟨tail, moves, goal, same, within, route⟩ := route_of_mem_step ih entered
              exact ⟨_, _, goal, same, by simp, Nat.succ_le_succ within, .element enters route⟩
            · obtain ⟨tail, moves, goal, same, ends, within, route⟩ := ih past
              obtain ⟨step, rest, rfl⟩ := List.exists_cons_of_ne_nil ends
              exact ⟨_, _, goal, same, ends, Nat.succ_le_succ within, .skip route⟩

/-- The patterns of an object are the routes from it that end with a step. -/
theorem mem_patterns_iff {root : Schema} {options : ResolveOptions} {pattern : PathPattern}
    (object : root.isObject = true) :
    pattern ∈ root.patterns options ↔
      pattern.segments ≠ [] ∧ ∃ moves ≤ options.maxDepth, ∃ goal,
        Route options.allowPlaceholders pattern.segments root moves goal := by
  simp only [Schema.patterns, List.mem_map, Schema.mem_firstOccurrences]
  constructor
  · rintro ⟨segments, listed, rfl⟩
    obtain ⟨tail, moves, goal, rfl, ends, within, route⟩ := route_of_listed listed
    exact ⟨by simpa using ends, moves, within, goal, by simpa using route⟩
  · rintro ⟨ends, moves, within, goal, route⟩
    obtain ⟨spare, depth⟩ := Nat.exists_eq_add_of_le' within
    rw [depth]
    exact ⟨pattern.segments, route.listed spare ends fun _ => object, rfl⟩

theorem Route.length_le (route : Route placeholders tail node moves goal) :
    tail.length ≤ moves := by
  induction route with
  | arrived => simp
  | field _ _ ih => simpa using ih
  | key _ _ ih => simpa using ih
  | element _ _ ih => simpa using ih
  | skip _ ih => exact Nat.le_succ_of_le ih

end DocTyping
