import DocTyping.Proofs.Path.Route
import DocTyping.Proofs.Path.Walk
import DocTyping.Proofs.Schema.Names

namespace DocTyping

/-!
# Completeness of the patterns

Every path that resolves is an instance of a listed pattern, as long as its walk
stops at no opaque schema and takes no index for the key of an object.
-/

/-- Where steps of a walk are left, the place is not opaque, and it is an array if the next step is
an index. -/
def PlainWalk (placeholders : Bool) (steps : List Segment) (here : Arrival) : Prop :=
  ∀ count segment rest place, Moves placeholders steps here count (segment :: rest) place →
    place.node ≠ .unknown ∧
      ∀ value, segment = .index value → ∃ element, place.node = .array element

theorem PlainWalk.next {placeholders : Bool} {steps rest : List Segment} {here next : Arrival}
    (plain : PlainWalk placeholders steps here) (first : Move placeholders steps here rest next) :
    PlainWalk placeholders rest next :=
  fun count segment left place moved => plain (count + 1) segment left place (.next first moved)

theorem PlainWalk.arrived {placeholders : Bool} {here : Arrival} :
    PlainWalk placeholders [] here := by
  intro count segment rest place moved
  cases moved with
  | next first _ => cases first

theorem PlainWalk.before {placeholders : Bool} {segment : Segment} {steps rest : List Segment}
    {here next : Arrival} (first : Move placeholders (segment :: steps) here rest next)
    (indexed : ∀ value, segment = .index value → ∃ element, here.node = .array element)
    (plain : PlainWalk placeholders rest next) :
    PlainWalk placeholders (segment :: steps) here := by
  intro count other left place moved
  cases moved with
  | none =>
      refine ⟨?_, indexed⟩
      intro unknown
      cases first <;> simp_all [Schema.unknown]
  | next again onward =>
      obtain ⟨rfl, rfl⟩ := first.unique again
      exact plain _ other left place onward

theorem PlaceholderPattern.exists_accepts (form : Placeholder) :
    ∃ pattern ∈ PlaceholderPattern.all, pattern.accepts form = true := by
  cases form with
  | first => exact ⟨.first, by simp [all], rfl⟩
  | every => exact ⟨.every, by simp [all], rfl⟩
  | filtered identifier => exact ⟨.anyIdentifier, by simp [all], rfl⟩

theorem Walks.route {placeholders : Bool} {steps : List Segment} {here there : Arrival}
    {moves : Nat} (walks : Walks placeholders steps here moves there)
    (plain : PlainWalk placeholders steps here) :
    ∃ tail, PatternSegment.acceptAll tail steps = true ∧
      Route placeholders tail here.node moves there.node := by
  induction walks with
  | arrived => exact ⟨[], rfl, .arrived⟩
  | stopped unknown _ => exact absurd unknown (plain 0 _ _ _ .none).1
  | next first _ ih =>
      obtain ⟨tail, accepted, route⟩ := ih (plain.next first)
      cases first with
      | index array =>
          refine ⟨.anyIndex :: tail,
            by simpa [PatternSegment.acceptAll, PatternSegment.accepts], ?_⟩
          rw [array]
          exact .element (by simp [Schema.elementSteps]) route
      | @placeholder form _ _ _ allowed array =>
          obtain ⟨pattern, member, matched⟩ := PlaceholderPattern.exists_accepts form
          refine ⟨.placeholder pattern :: tail,
            by simpa [PatternSegment.acceptAll, PatternSegment.accepts, matched], ?_⟩
          rw [array]
          exact .element (by simp [Schema.elementSteps, allowed, member]) route
      | skip array =>
          cases tail with
          | nil => simp [PatternSegment.acceptAll] at accepted
          | cons step tail =>
              refine ⟨step :: tail, accepted, ?_⟩
              rw [array]
              exact .skip route
      | @field segment key rest _ shape child spelled object found =>
          cases segment with
          | placeholder form => contradiction
          | index value =>
              obtain ⟨element, array⟩ := (plain 0 _ _ _ .none).2 value rfl
              simp [object] at array
          | name text =>
              cases spelled
              rw [object]
              rcases Shape.child?_eq_some found with ⟨field, member, rfl, rfl⟩ | admitted
              · exact ⟨.name field.name :: tail,
                  by simpa [PatternSegment.acceptAll, PatternSegment.accepts], .field member route⟩
              · exact ⟨.anyKey :: tail,
                  by simpa [PatternSegment.acceptAll, PatternSegment.accepts], .key admitted route⟩

theorem patterns_complete {root : Schema} {options : ResolveOptions} {path : FieldPath}
    {resolved : Resolved} (object : root.isObject = true)
    (resolves : path.resolve root options = .ok resolved)
    (plain : PlainWalk options.allowPlaceholders path.segments { node := root }) :
    ∃ pattern ∈ root.patterns options, pattern.accepts path = true := by
  obtain ⟨steps, moves, within, goal, walks, _⟩ := FieldPath.resolve_eq_ok_iff.mp resolves
  obtain ⟨tail, accepted, route⟩ := walks.route plain
  have ends : tail ≠ [] := by
    rintro rfl
    cases segments : path.segments with
    | nil => exact steps segments
    | cons segment rest => simp [segments, PatternSegment.acceptAll] at accepted
  exact ⟨⟨tail⟩, (mem_patterns_iff object).mpr ⟨ends, moves, within, goal.node, route⟩, accepted⟩

/-- Two array levels around an object with a declared and an admitted key. -/
def ledger : Schema :=
  .object
    ⟨[⟨"rows", .array (.array (.object
      ⟨[⟨"label", .string, false, false⟩], some .number⟩)), false, false⟩], none⟩

/-- An entry of one row, under a key that is not declared. -/
def ledgerTotal : FieldPath := ⟨[.name "rows", .index 3, .name "total"]⟩

theorem ledgerTotal_plain : PlainWalk false ledgerTotal.segments { node := ledger } := by
  refine .before (.field rfl rfl rfl) (by simp) ?_
  refine .before (.index rfl) (fun _ _ => ⟨_, rfl⟩) ?_
  refine .before (.skip rfl) (by simp) ?_
  exact .before (.field rfl rfl rfl) (by simp) .arrived

theorem patterns_complete_ledger :
    (∃ resolved, ledgerTotal.resolve ledger {} = .ok resolved) ∧
      ∃ pattern ∈ ledger.patterns {}, pattern.accepts ledgerTotal = true :=
  ⟨⟨_, rfl⟩, patterns_complete rfl rfl ledgerTotal_plain⟩

end DocTyping
