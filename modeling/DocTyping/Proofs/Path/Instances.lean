import DocTyping.Proofs.Path.Route
import DocTyping.Proofs.Path.Walk
import DocTyping.Proofs.Schema.Names

namespace DocTyping

/-!
# Instances of patterns

A route may pass an array level before it enters the elements, while a walk enters
the outermost array first.  So a walk can lag behind the route by some array
levels; it has those moves left, and it makes up for them where the next name is.
-/

/-- A property of the steps that are left, the place and the budget. -/
abbrev Prospect := List Segment → Arrival → Nat → Prop

namespace Prospect

/-- A property that a move takes back: it holds before the move if it holds after it. -/
def Backward (placeholders : Bool) (prospect : Prospect) : Prop :=
  ∀ {steps rest : List Segment} {here next : Arrival} {budget : Nat},
    Move placeholders steps here rest next → prospect rest next budget →
      prospect steps here (budget + 1)

def At (prospect : Prospect) (steps : List Segment) (node : Schema) (budget : Nat) : Prop :=
  ∀ here : Arrival, here.node = node → prospect steps here budget

variable {prospect : Prospect} {placeholders : Bool} {rest : List Segment} {node child : Schema}
  {budget : Nat}

theorem Backward.field (backward : prospect.Backward placeholders) {shape : Shape Schema}
    {text : String} (found : shape.child? text = some child)
    (onward : prospect.At rest child budget) :
    prospect.At (.name text :: rest) (.object shape) (budget + 1) :=
  fun here arrived =>
    backward (.field rfl arrived found) (onward (here.enterField shape text child) rfl)

/-- A name skips every array level in front of it. -/
theorem Backward.skip (backward : prospect.Backward placeholders) {text : String}
    (onward : prospect.At (.name text :: rest) node budget) (levels : Nat) :
    prospect.At (.name text :: rest) (.nested levels node) (budget + levels) := by
  induction levels with
  | zero => exact onward
  | succ levels ih =>
      intro here arrived
      exact backward (.skip arrived) (ih (here.skipArray (.nested levels node)) rfl)

/-- Every instance of a step into the elements of an array enters them. -/
theorem Backward.element (backward : prospect.Backward placeholders) {step : PatternSegment}
    {segment : Segment} (enters : step ∈ Schema.elementSteps placeholders)
    (accepted : step.accepts segment = true) (onward : prospect.At rest child budget) :
    prospect.At (segment :: rest) (.array child) (budget + 1) := by
  intro here arrived
  rcases List.mem_cons.mp enters with rfl | placeholder
  · cases segment with
    | index value => exact backward (.index arrived) (onward (here.enterIndex child) rfl)
    | _ => contradiction
  · cases allowed : placeholders with
    | false => simp [allowed] at placeholder
    | true =>
        simp only [allowed, ↓reduceIte, List.mem_map] at placeholder
        obtain ⟨form, _, rfl⟩ := placeholder
        cases segment with
        | placeholder given =>
            exact backward (.placeholder allowed arrived) (onward (here.enterElements child) rfl)
        | _ => contradiction

end Prospect

def Leads (placeholders : Bool) (goal : Schema) : Prospect := fun steps here budget =>
  ∃ moves ≤ budget, ∃ there : Arrival, there.node = goal ∧ Walks placeholders steps here moves there

variable {placeholders : Bool} {budget moves : Nat} {steps rest : List Segment}
  {node child goal : Schema} {step : PatternSegment} {tail : List PatternSegment}

theorem Leads.arrived : (Leads placeholders node).At [] node budget :=
  fun here arrived => ⟨0, Nat.zero_le _, here, arrived, .arrived⟩

theorem Leads.backward : (Leads placeholders goal).Backward placeholders := by
  intro steps rest here next budget first onward
  obtain ⟨moves, within, there, reached, walks⟩ := onward
  exact ⟨moves + 1, Nat.succ_le_succ within, there, reached, .next first walks⟩

theorem PatternSegment.acceptAll_cons (accepted : acceptAll (step :: tail) steps = true) :
    ∃ segment rest, steps = segment :: rest ∧ step.accepts segment = true ∧
      acceptAll tail rest = true := by
  cases steps with
  | nil => contradiction
  | cons segment rest =>
      simp only [acceptAll, Bool.and_eq_true] at accepted
      exact ⟨segment, rest, rfl, accepted⟩

theorem PatternSegment.steps_of_acceptAll (accepted : acceptAll tail steps = true)
    (ends : tail ≠ []) : steps ≠ [] := by
  obtain ⟨step, later, rfl⟩ := List.exists_cons_of_ne_nil ends
  obtain ⟨segment, rest, rfl, _, _⟩ := acceptAll_cons accepted
  simp

theorem PatternSegment.name_accepts {text : String} {segment : Segment}
    (accepted : (name text).accepts segment = true) : segment = .name text := by
  cases segment with
  | name other =>
      simp only [accepts, beq_iff_eq] at accepted
      rw [accepted]
  | _ => contradiction

/-- Where a pattern leaves the key open, a path has a name that no object inside a schema
declares. -/
def FreshKeys (node : Schema) (tail : List PatternSegment) (steps : List Segment) : Prop :=
  ∀ entry ∈ tail.zip steps, entry.1 = .anyKey →
    ∃ text, entry.2 = .name text ∧ ¬ node.Declares text

theorem FreshKeys.later {segment : Segment}
    (fresh : FreshKeys node (step :: tail) (segment :: rest)) : FreshKeys node tail rest :=
  fun entry member => fresh entry (List.mem_cons_of_mem _ member)

theorem FreshKeys.inside (fresh : FreshKeys node tail steps)
    (within : ∀ text, child.Declares text → node.Declares text) : FreshKeys child tail steps := by
  intro entry member wildcard
  obtain ⟨text, named, undeclared⟩ := fresh entry member wildcard
  exact ⟨text, named, fun declared => undeclared (within text declared)⟩

theorem FreshKeys.key {segment : Segment}
    (fresh : FreshKeys node (.anyKey :: tail) (segment :: rest)) :
    ∃ text, segment = .name text ∧ ¬ node.Declares text :=
  fresh (.anyKey, segment) (by simp) rfl

/-- All instances of a route lead to one place, `levels` being the lag of the walk. -/
theorem Route.leads (route : Route placeholders tail node moves goal)
    (distinct : node.NamesDistinct) (spare levels : Nat) :
    ∃ reached, ∀ steps, PatternSegment.acceptAll tail steps = true → FreshKeys node tail steps →
      (Leads placeholders (.nested reached goal)).At steps (.nested levels node)
        (spare + moves + levels) := by
  -- A step into the elements keeps the lag, a step past them adds to it, and a name clears it.
  induction route generalizing levels with
  | @arrived node =>
      refine ⟨levels, fun steps accepted _ => ?_⟩
      cases steps with
      | nil => exact .arrived
      | cons segment rest => contradiction
  | @field field shape tail moves goal member _ ih =>
      cases distinct with
      | object names fields _ =>
          obtain ⟨reached, onward⟩ := ih (fields field member) 0
          refine ⟨reached, fun steps accepted fresh => ?_⟩
          obtain ⟨segment, rest, rfl, matched, later⟩ := PatternSegment.acceptAll_cons accepted
          obtain rfl := PatternSegment.name_accepts matched
          have inside := onward rest later (fresh.later.inside fun text => .field member)
          have entered := Leads.backward.field (Shape.child?_of_mem names member) inside
          exact Leads.backward.skip entered levels
  | @key shape node goal tail moves admitted _ ih =>
      cases distinct with
      | object _ _ additional =>
          obtain ⟨reached, onward⟩ := ih (additional node admitted) 0
          refine ⟨reached, fun steps accepted fresh => ?_⟩
          obtain ⟨segment, rest, rfl, _, later⟩ := PatternSegment.acceptAll_cons accepted
          obtain ⟨text, rfl, undeclared⟩ := fresh.key
          have absent : shape.declares text = false := by
            simpa using fun declared => undeclared (.here declared)
          have found : shape.child? text = some node :=
            (Shape.child?_of_undeclared absent).trans admitted
          have inside := onward rest later (fresh.later.inside fun text => .additional admitted)
          exact Leads.backward.skip (Leads.backward.field found inside) levels
  | @element step tail element goal moves enters _ ih =>
      cases distinct with
      | array inner =>
          obtain ⟨reached, onward⟩ := ih inner levels
          refine ⟨reached, fun steps accepted fresh => ?_⟩
          obtain ⟨segment, rest, rfl, matched, later⟩ := PatternSegment.acceptAll_cons accepted
          have inside := onward rest later (fresh.later.inside fun text => .element)
          have spent : spare + (moves + 1) + levels = spare + moves + levels + 1 := by omega
          rw [Schema.nested_array, spent]
          exact Leads.backward.element enters matched inside
  | @skip step tail element goal moves _ ih =>
      cases distinct with
      | array inner =>
          obtain ⟨reached, onward⟩ := ih inner (levels + 1)
          refine ⟨reached, fun steps accepted fresh => ?_⟩
          have lagging := onward steps accepted (fresh.inside fun text => .element)
          have spent : spare + (moves + 1) + levels = spare + moves + (levels + 1) := by omega
          rw [Schema.nested_array, spent]
          exact lagging

theorem FieldPath.resolve_of_leads {root : Schema} {options : ResolveOptions} {path : FieldPath}
    (steps : path.segments ≠ [])
    (leads : Leads options.allowPlaceholders goal path.segments { node := root }
      options.maxDepth) :
    ∃ resolved, path.resolve root options = .ok resolved ∧ resolved.node = goal := by
  obtain ⟨moves, within, there, reached, walks⟩ := leads
  exact ⟨⟨path, there, options.checkInArray⟩,
    resolve_eq_ok_iff.mpr ⟨steps, moves, within, there, walks, rfl⟩, reached⟩

/-- The instances of a listed pattern resolve, and all of them to the same schema. -/
theorem patterns_instances_agree {root : Schema} {options : ResolveOptions} {pattern : PathPattern}
    (object : root.isObject = true) (distinct : root.NamesDistinct)
    (listed : pattern ∈ root.patterns options) :
    (∃ goal, ∀ path : FieldPath, pattern.accepts path = true →
      FreshKeys root pattern.segments path.segments →
        ∃ resolved, path.resolve root options = .ok resolved ∧ resolved.node = goal) ∧
    pattern.segments.length ≤ options.maxDepth := by
  obtain ⟨ends, moves, within, goal, route⟩ := (mem_patterns_iff object).mp listed
  refine ⟨?_, Nat.le_trans route.length_le within⟩
  obtain ⟨spare, depth⟩ := Nat.exists_eq_add_of_le' within
  obtain ⟨reached, leads⟩ := route.leads distinct spare 0
  refine ⟨.nested reached goal, fun path accepted fresh => ?_⟩
  refine FieldPath.resolve_of_leads (PatternSegment.steps_of_acceptAll accepted ends) ?_
  rw [depth]
  exact leads path.segments accepted fresh { node := root } rfl

def grid : Schema :=
  .object
    ⟨[⟨"cells", .array (.array (.object
      ⟨[⟨"label", .string, false, false⟩], some .number⟩)), false, false⟩], none⟩

/-- Every undeclared key of the cells of a row, or of a column. -/
def gridKeys : PathPattern := ⟨[.name "cells", .anyIndex, .anyKey]⟩

theorem grid_namesDistinct : grid.NamesDistinct := by
  simp [grid, Schema.namesDistinct_object_iff, Shape.names, Schema.string, Schema.number]

theorem grid_not_declares {text : String} (other : text ∉ ["cells", "label"]) :
    ¬ grid.Declares text := by
  have different : "cells" ≠ text ∧ "label" ≠ text := by
    simpa [not_or, eq_comm (a := text)] using other
  simp [grid, Schema.declares_object_iff, Shape.declares, Shape.find?, Schema.string,
    Schema.number, different]

theorem patterns_instances_agree_grid :
    gridKeys ∈ grid.patterns {} ∧
    ∃ goal, ∀ value, ∀ text ∉ ["cells", "label"], ∃ resolved,
      FieldPath.resolve ⟨[.name "cells", .index value, .name text]⟩ grid {} = .ok resolved ∧
        resolved.node = goal := by
  have listed : gridKeys ∈ grid.patterns {} := by decide
  obtain ⟨goal, agree⟩ := (patterns_instances_agree rfl grid_namesDistinct listed).1
  refine ⟨listed, goal, fun value text other => agree _ rfl ?_⟩
  intro entry member wildcard
  simp only [gridKeys, List.zip_cons_cons, List.zip_nil_right, List.mem_cons,
    List.not_mem_nil, or_false] at member
  rcases member with rfl | rfl | rfl
  · contradiction
  · contradiction
  · exact ⟨text, rfl, grid_not_declares other⟩

end DocTyping
