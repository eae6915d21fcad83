import DocTyping.Proofs.Path.Walk
import DocTyping.Proofs.Schema.NamesFit

namespace DocTyping

/-!
# Looking up names

A path of names goes below all array levels and enters a field for each of its names.
What it leads to can be looked up without a walk, and resolving the path gives what is
found, if the depth covers the moves to it.
-/

namespace Shape

variable {α : Type} {shape other : Shape α} {name key : String} {field : Field α} {child : α}

/-- The field under a key.  A key that is not declared may be absent. -/
def under? (shape : Shape α) (name : String) : Option (Field α) :=
  (shape.find? name).or (shape.additional.map fun node => ⟨name, node, true, false⟩)

theorem child?_eq_under? (shape : Shape α) (name : String) :
    shape.child? name = (shape.under? name).map Field.node := by
  cases found : shape.find? name with
  | some field => simp [child?, declared?, under?, found]
  | none => simp [child?, declared?, under?, found, Function.comp_def]

theorem child?_of_under? (held : shape.under? name = some field) :
    shape.child? name = some field.node := by
  rw [child?_eq_under?, held, Option.map_some]

theorem under?_of_find? (declared : shape.find? name = some field) :
    shape.under? name = some field := by
  simp [under?, declared]

theorem under?_congr (found : shape.find? name = other.find? name)
    (additional : shape.additional = other.additional) : shape.under? name = other.under? name := by
  rw [under?, under?, found, additional]

@[simp] theorem under?_empty : (empty : Shape α).under? name = none := rfl

end Shape

def Arrival.enter (here : Arrival) (field : Field Schema) : Arrival :=
  { here with node := field.node, optional := field.optional, nullable := field.nullable }

theorem Arrival.enterField_eq {here : Arrival} {shape : Shape Schema} {name : String}
    {field : Field Schema} (found : shape.under? name = some field) :
    here.enterField shape name field.node = here.enter field := by
  cases declared : shape.find? name with
  | some held =>
      have same : held = field := by simpa [Shape.under?, declared] using found
      simp [enterField, enter, Shape.isOptional, Shape.isNullable, Shape.declares, declared, same]
  | none =>
      obtain ⟨node, open_, rfl⟩ : ∃ node, shape.additional = some node ∧
          ⟨name, node, true, false⟩ = field := by
        simpa [Shape.under?, declared] using found
      simp [enterField, enter, Shape.isOptional, Shape.isNullable, Shape.declares, declared]

theorem walk_of_under? {options : ResolveOptions} {budget : Nat} {segment : Segment}
    {rest : List Segment} {here : Arrival} {shape : Shape Schema} {key : String}
    {field : Field Schema} (spelled : segment.key? = some key) (object : here.node = .object shape)
    (held : shape.under? key = some field) :
    walk options (budget + 1) (segment :: rest) here =
      walk options budget rest (here.enter field) := by
  rw [walk_of_move (.field spelled object (Shape.child?_of_under? held)),
    Arrival.enterField_eq held]

namespace Schema

/-- What lies below all array levels. -/
def core : Schema → Schema
  | array element => core element
  | other => other

def levels : Schema → Nat
  | array element => levels element + 1
  | _ => 0

def asField (schema : Schema) : Field Schema := ⟨"", schema, false, false⟩

end Schema

structure Found where
  node : Schema
  optional : Bool
  nullable : Bool
  across : Bool
  moves : Nat

def Found.behind (levels : Nat) (found : Found) : Found :=
  { found with across := decide (0 < levels) || found.across, moves := levels + 1 + found.moves }

/-- Follows names from a field on.  An opaque schema has every field. -/
def Field.locate : List String → Field Schema → Option Found
  | [], field => some ⟨field.node, field.optional, field.nullable, false, 0⟩
  | name :: rest, field =>
    (match field.node.core with
      | .object shape => (shape.under? name).bind (locate rest)
      | .scalar .unknown => some ⟨.unknown, true, false, false, 0⟩
      | _ => none).map (Found.behind field.node.levels)

/-- Where a walk from a place arrives that leads to what is found. -/
def Arrival.atFound (here : Arrival) (found : Found) : Arrival where
  node := found.node
  traversedArray := here.traversedArray || found.across
  inArray := here.inArray || found.across
  optional := found.optional
  nullable := found.nullable

def Arrival.field (here : Arrival) : Field Schema := ⟨"", here.node, here.optional, here.nullable⟩

variable {placeholders : Bool} {names rest : List String} {name : String} {here goal : Arrival}
  {moves : Nat} {found : Found} {field other : Field Schema} {element : Schema}

theorem Field.locate_congr (filled : names ≠ []) (same : field.node = other.node) :
    field.locate names = other.locate names := by
  cases names with
  | nil => contradiction
  | cons name rest => rw [locate, locate, same]

def Found.inElements (found : Found) : Found :=
  { found with across := true, moves := found.moves + 1 }

theorem Found.behind_succ (levels : Nat) (found : Found) :
    found.behind (levels + 1) = (found.behind levels).inElements := by
  simp only [behind, inElements, Nat.zero_lt_succ, decide_true, Bool.true_or, Found.mk.injEq,
    true_and]
  omega

theorem Field.locate_array (array : field.node = .array element) :
    field.locate (name :: rest) =
      (element.asField.locate (name :: rest)).map Found.inElements := by
  have behind : Found.behind (.array element : Schema).levels =
      Found.inElements ∘ Found.behind element.levels :=
    funext (Found.behind_succ element.levels)
  rw [locate, locate, array, behind, Option.map_map]
  rfl

theorem Field.locate_object {shape : Shape Schema} (object : field.node = .object shape) :
    field.locate (name :: rest) =
      ((shape.under? name).bind (locate rest)).map (Found.behind 0) := by
  rw [locate, object]
  rfl

theorem Field.locate_unknown (unknown : field.node = .unknown) :
    field.locate (name :: rest) = some ⟨.unknown, true, false, false, 1⟩ := by
  rw [locate, unknown]
  rfl

theorem Schema.locate_of_core {schema : Schema} {shape : Shape Schema}
    (object : schema.core = .object shape) (held : shape.under? name = some field) :
    schema.asField.locate (name :: rest) =
      (field.locate rest).map (Found.behind schema.levels) := by
  have entered : (shape.under? name).bind (Field.locate rest) = field.locate rest := by
    rw [held, Option.bind_some]
  rw [Field.locate, show schema.asField.node.core = .object shape from object, ← entered]
  rfl

/-- A name enters a field below the array levels, or ends at an opaque schema there. -/
theorem Schema.locate_cons_eq_some {schema : Schema}
    (located : schema.asField.locate (name :: rest) = some found) :
    (schema.core = .unknown ∧
      (⟨.unknown, true, false, false, 0⟩ : Found).behind schema.levels = found) ∨
    ∃ shape field below, schema.core = .object shape ∧ shape.under? name = some field ∧
      field.locate rest = some below ∧ below.behind schema.levels = found := by
  rw [Field.locate, Option.map_eq_some_iff] at located
  obtain ⟨below, entered, made⟩ := located
  split at entered
  · rename_i shape object
    obtain ⟨field, held, inside⟩ := Option.bind_eq_some_iff.mp entered
    exact .inr ⟨shape, field, below, object, held, inside, made⟩
  · rename_i unknown
    cases entered
    exact .inl ⟨unknown, made⟩
  · contradiction

namespace Schema

variable {change : Schema → Schema} {schema : Schema} {shape : Shape Schema}
  (inside : ∀ element, change (array element) = array (change element))

include inside

/-- A change that goes through arrays and makes an object below them keeps the array levels. -/
theorem core_and_levels_of_change (made : change schema.core = object shape) :
    (change schema).core = object shape ∧ (change schema).levels = schema.levels := by
  induction schema using partsInduction with
  | array element below =>
      obtain ⟨core, levels⟩ := below made
      rw [inside]
      exact ⟨core, congrArg (· + 1) levels⟩
  | scalar kind =>
      have changed : change (scalar kind) = object shape := made
      rw [changed]
      exact ⟨rfl, rfl⟩
  | object former _ _ =>
      have changed : change (object former) = object shape := made
      rw [changed]
      exact ⟨rfl, rfl⟩

theorem locate_of_change (made : change schema.core = object shape) :
    (change schema).asField.locate (name :: rest) =
      ((shape.under? name).bind (Field.locate rest)).map (Found.behind schema.levels) := by
  obtain ⟨core, levels⟩ := core_and_levels_of_change inside made
  rw [Field.locate, show (change schema).asField.node.core = _ from core,
    show (change schema).asField.node.levels = _ from levels]

end Schema

theorem Arrival.atFound_inElements (element : Schema) :
    here.atFound found.inElements = (here.skipArray element).atFound found := by
  simp [atFound, Found.inElements, skipArray]

theorem Arrival.atFound_behind (field : Field Schema) :
    here.atFound (found.behind 0) = (here.enter field).atFound found := by
  simp [atFound, Found.behind, enter]

theorem Field.locate_enter (here : Arrival) (field : Field Schema) :
    (here.enter field).field.locate names = field.locate names := by
  cases names <;> rfl

theorem locate_of_walks (walks : Walks placeholders (names.map .name) here moves goal) :
    ∃ found, here.field.locate names = some found ∧ found.moves = moves ∧
      here.atFound found = goal := by
  generalize stated : names.map Segment.name = steps at walks
  induction walks generalizing names with
  | arrived =>
      cases List.map_eq_nil_iff.mp stated
      exact ⟨_, rfl, rfl, by simp [Arrival.atFound, Arrival.field]⟩
  | stopped unknown plain =>
      obtain ⟨name, others, rfl, rfl, rfl⟩ := List.map_eq_cons_iff.mp stated
      refine ⟨_, Field.locate_unknown unknown, rfl, ?_⟩
      simp [Arrival.atFound, Arrival.stopOpaque, unknown]
  | next first _ ih =>
      cases first with
      | index array =>
          obtain ⟨name, others, _, different, _⟩ := List.map_eq_cons_iff.mp stated
          contradiction
      | placeholder allowed array =>
          obtain ⟨name, others, _, different, _⟩ := List.map_eq_cons_iff.mp stated
          contradiction
      | @skip text rest here element array =>
          obtain ⟨found, located, rfl, rfl⟩ := ih stated
          obtain ⟨name, others, rfl, _, _⟩ := List.map_eq_cons_iff.mp stated
          have inside : element.asField.locate (name :: others) = some found := located
          refine ⟨found.inElements, ?_, rfl, Arrival.atFound_inElements element⟩
          rw [Field.locate_array array, inside, Option.map_some]
      | @field segment key rest here shape child spelled object entered =>
          obtain ⟨name, others, rfl, rfl, rfl⟩ := List.map_eq_cons_iff.mp stated
          cases spelled
          rw [Shape.child?_eq_under?, Option.map_eq_some_iff] at entered
          obtain ⟨entry, held, rfl⟩ := entered
          rw [Arrival.enterField_eq held] at ih
          obtain ⟨found, located, rfl, rfl⟩ := ih rfl
          rw [Field.locate_enter] at located
          refine ⟨found.behind 0, ?_, Nat.add_comm 1 found.moves, Arrival.atFound_behind entry⟩
          rw [Field.locate_object object, held, Option.bind_some, located, Option.map_some]

theorem walks_of_locate (located : here.field.locate names = some found) :
    Walks placeholders (names.map .name) here found.moves (here.atFound found) := by
  induction names generalizing here found with
  | nil =>
      cases located
      have stays : here.atFound
          ⟨here.field.node, here.field.optional, here.field.nullable, false, 0⟩ = here := by
        simp [Arrival.atFound, Arrival.field]
      rw [stays]
      exact .arrived
  | cons name rest ih =>
      -- The name stays in front while array levels are skipped, hence an induction on the place.
      generalize place : here.node = node
      induction node using Schema.partsInduction generalizing here found with
      | scalar kind =>
          by_cases opaque_ : kind = .unknown
          · have unknown : here.node = .unknown := by rw [place, opaque_, Schema.unknown]
            rw [Field.locate_unknown (show here.field.node = .unknown from unknown)] at located
            cases located
            have stops : here.atFound ⟨.unknown, true, false, false, 1⟩ = here.stopOpaque := by
              simp [Arrival.atFound, Arrival.stopOpaque, unknown]
            rw [stops]
            exact .stopped unknown rfl
          · simp [Field.locate, Arrival.field, place, Schema.core, opaque_] at located
      | array element inside =>
          have held : here.field.node = .array element := place
          rw [Field.locate_array held, Option.map_eq_some_iff] at located
          obtain ⟨below, located, rfl⟩ := located
          rw [Arrival.atFound_inElements element]
          exact .next (.skip place) (inside located rfl)
      | object shape _ _ =>
          have held : here.field.node = .object shape := place
          simp only [Field.locate_object held, Option.map_eq_some_iff, Option.bind_eq_some_iff]
            at located
          obtain ⟨below, ⟨field, entered, located⟩, rfl⟩ := located
          have child := Shape.child?_of_under? entered
          rw [← Field.locate_enter here field] at located
          rw [Arrival.atFound_behind field, ← Arrival.enterField_eq entered]
          rw [← Arrival.enterField_eq entered] at located
          have moves : (below.behind 0).moves = below.moves + 1 := Nat.add_comm 1 below.moves
          rw [moves]
          exact .next (.field rfl place child) (ih located)

/-- A path of names resolves to what is found, if the depth covers the moves to it. -/
theorem FieldPath.resolve_names_iff {root : Schema} {options : ResolveOptions}
    {resolved : Resolved} (filled : names ≠ []) :
    (ofNames names).resolve root options = .ok resolved ↔
      ∃ found, root.asField.locate names = some found ∧ found.moves ≤ options.maxDepth ∧
        resolved = ⟨ofNames names, ({ node := root } : Arrival).atFound found,
          options.checkInArray⟩ := by
  have steps : (ofNames names).segments ≠ [] := by simpa [ofNames] using filled
  rw [resolve_eq_ok_iff]
  constructor
  · rintro ⟨_, moves, within, goal, walks, rfl⟩
    obtain ⟨found, located, rfl, rfl⟩ := locate_of_walks walks
    exact ⟨found, located, within, rfl⟩
  · rintro ⟨found, located, within, rfl⟩
    exact ⟨steps, found.moves, within, _, walks_of_locate located, rfl⟩

/-- A path of names resolves to a node under these flags. -/
def Schema.Reaches (schema : Schema) (options : ResolveOptions) (names : List String)
    (node : Schema) (optional nullable : Bool) : Prop :=
  ∃ resolved, (FieldPath.ofNames names).resolve schema options = .ok resolved ∧
    resolved.node = node ∧ resolved.arrival.optional = optional ∧
      resolved.arrival.nullable = nullable

theorem Schema.reaches_iff {schema node : Schema} {options : ResolveOptions}
    {optional nullable : Bool} (filled : names ≠ []) :
    schema.Reaches options names node optional nullable ↔
      ∃ across moves, schema.asField.locate names = some ⟨node, optional, nullable, across, moves⟩ ∧
        moves ≤ options.maxDepth := by
  constructor
  · rintro ⟨resolved, resolves, rfl, rfl, rfl⟩
    obtain ⟨found, located, within, rfl⟩ := (FieldPath.resolve_names_iff filled).mp resolves
    exact ⟨found.across, found.moves, located, within⟩
  · rintro ⟨across, moves, located, within⟩
    exact ⟨_, (FieldPath.resolve_names_iff filled).mpr ⟨_, located, within, rfl⟩, rfl, rfl, rfl⟩

/-! ### Paths that are apart -/

/-- Neither of two paths begins the other. -/
def Apart (names others : List String) : Prop := ¬ names <+: others ∧ ¬ others <+: names

theorem apart_cons_iff {key : String} {back : List String} :
    Apart (name :: rest) (key :: back) ↔ (name = key → Apart rest back) := by
  by_cases same : name = key
  · simp [Apart, same]
  · simp [Apart, same, Ne.symm same]

theorem Apart.ne_nil (apart : Apart names rest) : rest ≠ [] := by
  rintro rfl
  exact apart.2 (List.nil_prefix)

namespace Schema

/-- Paths apart from a given one lead to the same thing in both schemas. -/
def AgreeApart (names : List String) (schema other : Schema) : Prop :=
  ∀ others, Apart names others → other.asField.locate others = schema.asField.locate others

variable {schema other : Schema} {shape changed : Shape Schema}

theorem agreeApart_refl (schema : Schema) : AgreeApart names schema schema := fun _ _ => rfl

theorem agreeApart_nil : AgreeApart [] schema other :=
  fun _ apart => absurd List.nil_prefix apart.1

theorem AgreeApart.locate {former latter : Field Schema}
    (agree : AgreeApart names former.node latter.node) (apart : Apart names rest) :
    latter.locate rest = former.locate rest := by
  calc
    latter.locate rest = latter.node.asField.locate rest := Field.locate_congr apart.ne_nil rfl
    _ = former.node.asField.locate rest := agree rest apart
    _ = former.locate rest := Field.locate_congr apart.ne_nil rfl

theorem agreeApart_array (agree : AgreeApart (name :: rest) element other) :
    AgreeApart (name :: rest) (.array element) (.array other) := by
  intro others apart
  cases others with
  | nil => exact absurd rfl apart.ne_nil
  | cons key back =>
      calc
        (array other).asField.locate (key :: back) =
            (other.asField.locate (key :: back)).map Found.inElements := Field.locate_array rfl
        _ = (element.asField.locate (key :: back)).map Found.inElements := by rw [agree _ apart]
        _ = (array element).asField.locate (key :: back) := (Field.locate_array rfl).symm

/-- Two objects agree apart from a path if they have the same under every other key, and agree
below its first name. -/
theorem agreeApart_object
    (others : ∀ key, key ≠ name → changed.under? key = shape.under? key)
    (below : ∀ back, Apart rest back → (changed.under? name).bind (Field.locate back) =
      (shape.under? name).bind (Field.locate back)) :
    AgreeApart (name :: rest) (.object shape) (.object changed) := by
  intro path apart
  cases path with
  | nil => exact absurd rfl apart.ne_nil
  | cons key back =>
      have entered : (changed.under? key).bind (Field.locate back) =
          (shape.under? key).bind (Field.locate back) := by
        by_cases same : key = name
        · subst same
          exact below back (apart_cons_iff.mp apart rfl)
        · rw [others key same]
      calc
        (object changed).asField.locate (key :: back) =
            ((changed.under? key).bind (Field.locate back)).map (Found.behind 0) :=
          Field.locate_object rfl
        _ = ((shape.under? key).bind (Field.locate back)).map (Found.behind 0) := by rw [entered]
        _ = (object shape).asField.locate (key :: back) := (Field.locate_object rfl).symm

/-- What a path of names passes before its end, below the array levels. -/
def way : List String → Schema → List Schema
  | [], _ => []
  | name :: rest, node =>
    node.core :: match node.core with
      | .object shape => ((shape.child? name).map (way rest)).getD []
      | _ => []

theorem way_object : way (name :: rest) (.object shape) =
    .object shape :: ((shape.child? name).map (way rest)).getD [] := rfl

end Schema

/-- Where two schemas agree apart from a path, the paths apart from it resolve alike. -/
theorem FieldPath.resolve_congr {root changed : Schema} {others : List String}
    {options : ResolveOptions} {resolved : Resolved} (agree : Schema.AgreeApart names root changed)
    (apart : Apart names others) :
    (ofNames others).resolve changed options = .ok resolved ↔
      (ofNames others).resolve root options = .ok resolved := by
  rw [resolve_names_iff apart.ne_nil, resolve_names_iff apart.ne_nil, agree others apart]
  simp [Arrival.atFound]

end DocTyping
