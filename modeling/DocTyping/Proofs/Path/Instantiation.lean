import DocTyping.Proofs.Path.Instances

namespace DocTyping

/-!
# Chosen instances

The chosen instance of a pattern has one fixed name where the pattern leaves the key
open.  An object that declares this name shadows the keys it does not declare: the
walk enters the declared field, and the rest of the instance may lead nowhere there.
-/

variable {placeholders : Bool} {budget moves : Nat} {steps : List Segment} {node goal : Schema}
  {tail whole : List PatternSegment}

abbrev PatternSegment.instantiateAll (pattern : List PatternSegment) : List Segment :=
  pattern.map PatternSegment.instantiate

/-- A walk enters a declared field where a pattern leaves the key open, and from there it does
not come to its end within the budget. -/
def Shadowed (placeholders : Bool) (whole : List PatternSegment) : Prospect :=
  fun steps here budget =>
    ∃ front back count place shape declared,
      whole = front ++ .anyKey :: back ∧
      Moves placeholders steps here count (PatternSegment.instantiateAll (.anyKey :: back)) place ∧
      place.node = .object shape ∧ shape.declared? "anyKey" = some declared ∧
      ∀ moves goal,
        Walks placeholders (PatternSegment.instantiateAll back)
            (place.enterField shape "anyKey" declared) moves goal →
          budget < count + 1 + moves

/-- A declared field shadows an open key on the chosen instance of a pattern. -/
def PathPattern.Shadowed (pattern : PathPattern) (root : Schema) (options : ResolveOptions) :
    Prop :=
  DocTyping.Shadowed options.allowPlaceholders pattern.segments pattern.instantiate.segments
    { node := root } options.maxDepth

theorem PlaceholderPattern.accepts_chosen (form : PlaceholderPattern) :
    form.accepts form.chosen = true := by
  cases form <;> rfl

theorem PatternSegment.accepts_instantiate (step : PatternSegment) :
    step.accepts step.instantiate = true := by
  cases step with
  | name text => exact beq_self_eq_true text
  | anyIndex => rfl
  | anyKey => rfl
  | placeholder form => exact form.accepts_chosen

theorem PatternSegment.acceptAll_instantiateAll (pattern : List PatternSegment) :
    acceptAll pattern (instantiateAll pattern) = true := by
  induction pattern with
  | nil => rfl
  | cons step rest ih => simp [acceptAll, accepts_instantiate, ih]

theorem Move.declares {steps rest : List Segment} {here next : Arrival} {text : String}
    (first : Move placeholders steps here rest next) (declared : next.node.Declares text) :
    here.node.Declares text := by
  cases first with
  | index array => exact array ▸ .element declared
  | placeholder _ array => exact array ▸ .element declared
  | skip array => exact array ▸ .element declared
  | field _ object found =>
      rw [object]
      rcases Shape.child?_eq_some found with ⟨field, member, _, rfl⟩ | admitted
      · exact .field member declared
      · exact .additional admitted declared

theorem Moves.declares {steps rest : List Segment} {here next : Arrival} {count : Nat}
    {text : String} (moved : Moves placeholders steps here count rest next)
    (declared : next.node.Declares text) : here.node.Declares text := by
  induction moved with
  | none => exact declared
  | next first _ ih => exact first.declares (ih declared)

theorem Shadowed.declares {here : Arrival}
    (shadowed : Shadowed placeholders whole steps here budget) : here.node.Declares "anyKey" := by
  obtain ⟨front, back, count, place, shape, declared, _, moved, object, found, _⟩ := shadowed
  refine moved.declares ?_
  rw [object]
  refine .here ?_
  simp only [Shape.declared?, Option.map_eq_some_iff] at found
  obtain ⟨field, named, _⟩ := found
  simp [Shape.declares, named]

theorem Shadowed.blocks {here there : Arrival}
    (shadowed : Shadowed placeholders whole steps here budget)
    (walks : Walks placeholders steps here moves there) : budget < moves := by
  obtain ⟨front, back, count, place, shape, declared, _, moved, object, found, beyond⟩ := shadowed
  obtain ⟨remaining, rfl, onward⟩ := walks.after moved
  have entered : Move placeholders (PatternSegment.instantiateAll (.anyKey :: back)) place
      (PatternSegment.instantiateAll back) (place.enterField shape "anyKey" declared) :=
    .field rfl object (by simp [Shape.child?, found])
  obtain ⟨left, rfl, rest⟩ := onward.after (.next entered .none)
  have exceeded := beyond left there rest
  omega

/-- The two ends of a walk on the chosen instance of a pattern. -/
def Settles (placeholders : Bool) (whole : List PatternSegment) : Prospect :=
  fun steps here budget =>
    (∃ goal, Leads placeholders goal steps here budget) ∨
      Shadowed placeholders whole steps here budget

theorem Settles.backward : (Settles placeholders whole).Backward placeholders := by
  intro steps rest here next budget first settles
  rcases settles with ⟨goal, leads⟩ | shadowed
  · exact .inl ⟨goal, Leads.backward first leads⟩
  · obtain ⟨front, back, count, place, shape, declared, split, moved, object, found, beyond⟩ :=
      shadowed
    refine .inr ⟨front, back, count + 1, place, shape, declared, split, .next first moved, object,
      found, fun moves goal walks => ?_⟩
    have exceeded := beyond moves goal walks
    omega

theorem Settles.key {shape : Shape Schema} {front back : List PatternSegment}
    (split : whole = front ++ .anyKey :: back) (admitted : shape.additional = some node)
    (onward : (Settles placeholders whole).At (PatternSegment.instantiateAll back) node budget) :
    (Settles placeholders whole).At (PatternSegment.instantiateAll (.anyKey :: back))
      (.object shape) (budget + 1) := by
  cases found : shape.declared? "anyKey" with
  | none =>
      have child : shape.child? "anyKey" = some node := by
        simpa [Shape.child?, found] using admitted
      exact Settles.backward.field child onward
  | some declared =>
      intro here arrived
      have entered : Move placeholders (PatternSegment.instantiateAll (.anyKey :: back)) here
          (PatternSegment.instantiateAll back) (here.enterField shape "anyKey" declared) :=
        .field rfl arrived (by simp [Shape.child?, found])
      -- The walk cannot avoid the declared field, but the rest may still lead somewhere.
      by_cases ends : ∃ goal, Leads placeholders goal (PatternSegment.instantiateAll back)
          (here.enterField shape "anyKey" declared) budget
      · obtain ⟨goal, leads⟩ := ends
        exact .inl ⟨goal, Leads.backward entered leads⟩
      · refine .inr ⟨front, back, 0, here, shape, declared, split, .none, arrived, found,
          fun moves goal walks => ?_⟩
        have exceeded : ¬ moves ≤ budget := fun within =>
          ends ⟨goal.node, moves, within, goal, rfl, walks⟩
        omega

/-- The chosen instance of a route comes to its end or meets a shadowed key. -/
theorem Route.settles (route : Route placeholders tail node moves goal)
    (distinct : node.NamesDistinct) (spare levels : Nat) (suffix : tail <:+ whole) :
    (Settles placeholders whole).At (PatternSegment.instantiateAll tail) (.nested levels node)
      (spare + moves + levels) := by
  induction route generalizing levels with
  | arrived => exact fun here arrived => .inl ⟨_, Leads.arrived here arrived⟩
  | field member _ ih =>
      cases distinct with
      | object names fields _ =>
          have inside := ih (fields _ member) 0 ((List.suffix_cons _ _).trans suffix)
          exact Settles.backward.skip
            (Settles.backward.field (Shape.child?_of_mem names member) inside) levels
  | key admitted _ ih =>
      cases distinct with
      | object _ _ additional =>
          obtain ⟨front, split⟩ := suffix
          have inside := ih (additional _ admitted) 0 ⟨front ++ [.anyKey], by simpa using split⟩
          exact Settles.backward.skip (Settles.key split.symm admitted inside) levels
  | @element step tail element goal moves enters _ ih =>
      cases distinct with
      | array inner =>
          have inside := ih inner levels ((List.suffix_cons _ _).trans suffix)
          have spent : spare + (moves + 1) + levels = spare + moves + levels + 1 := by omega
          rw [Schema.nested_array, spent]
          exact Settles.backward.element enters (PatternSegment.accepts_instantiate _) inside
  | @skip step tail element goal moves _ ih =>
      cases distinct with
      | array inner =>
          have lagging := ih inner (levels + 1) suffix
          have spent : spare + (moves + 1) + levels = spare + moves + (levels + 1) := by omega
          rw [Schema.nested_array, spent]
          exact lagging

/-- The chosen instance of a listed pattern resolves exactly if no declared field shadows an
open key. -/
theorem instantiate_resolves_iff {root : Schema} {options : ResolveOptions} {pattern : PathPattern}
    (object : root.isObject = true) (distinct : root.NamesDistinct)
    (listed : pattern ∈ root.patterns options) :
    pattern.accepts pattern.instantiate = true ∧
    ((∃ resolved, pattern.instantiate.resolve root options = .ok resolved) ↔
      ¬ pattern.Shadowed root options) ∧
    (pattern.Shadowed root options → root.Declares "anyKey") := by
  refine ⟨PatternSegment.acceptAll_instantiateAll pattern.segments, ⟨?_, ?_⟩, fun shadowed =>
    shadowed.declares⟩
  · rintro ⟨resolved, resolves⟩ shadowed
    obtain ⟨_, moves, within, goal, walks, _⟩ := FieldPath.resolve_eq_ok_iff.mp resolves
    exact absurd within (Nat.not_le_of_lt (shadowed.blocks walks))
  · intro visible
    obtain ⟨ends, moves, within, goal, route⟩ := (mem_patterns_iff object).mp listed
    obtain ⟨spare, depth⟩ := Nat.exists_eq_add_of_le' within
    have settles := route.settles distinct spare 0 (List.suffix_refl _) { node := root } rfl
    rw [Nat.add_zero, ← depth] at settles
    rcases settles with ⟨reached, leads⟩ | shadowed
    · have steps : pattern.instantiate.segments ≠ [] := by
        simpa [PathPattern.instantiate] using ends
      obtain ⟨resolved, resolves, _⟩ := FieldPath.resolve_of_leads steps leads
      exact ⟨resolved, resolves⟩
    · exact absurd shadowed visible

/-- A declared name that is the one chosen for open keys. -/
def shadowing : Schema :=
  .object
    ⟨[⟨"anyKey", .scalar .int, false, false⟩],
      some (.object ⟨[⟨"x", .string, false, false⟩], none⟩)⟩

def shadowedPattern : PathPattern := ⟨[.anyKey, .name "x"]⟩

theorem shadowing_namesDistinct : shadowing.NamesDistinct := by
  simp [shadowing, Schema.namesDistinct_object_iff, Shape.names, Schema.string]

theorem shadowedPattern_shadowed : shadowedPattern.Shadowed shadowing {} := by
  refine ⟨[], [.name "x"], 0, _, _, _, rfl, .none, rfl, rfl, ?_⟩
  intro moves goal walks
  cases walks with
  | stopped unknown _ => simp [Arrival.enterField, Schema.unknown] at unknown
  | next first _ =>
      cases first with
      | skip array => simp [Arrival.enterField] at array
      | field _ object _ => simp [Arrival.enterField] at object

theorem instantiate_resolves_iff_shadowing :
    shadowedPattern ∈ shadowing.patterns {} ∧
      shadowedPattern.accepts shadowedPattern.instantiate = true ∧
        ¬ ∃ resolved, shadowedPattern.instantiate.resolve shadowing {} = .ok resolved := by
  have listed : shadowedPattern ∈ shadowing.patterns {} := by decide
  obtain ⟨accepted, resolves, _⟩ := instantiate_resolves_iff rfl shadowing_namesDistinct listed
  exact ⟨listed, accepted, fun found => resolves.mp found shadowedPattern_shadowed⟩

end DocTyping
