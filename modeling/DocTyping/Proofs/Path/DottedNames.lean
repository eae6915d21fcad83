import DocTyping.Proofs.Path.Grammar
import DocTyping.Proofs.Path.Removing
import DocTyping.Proofs.Schema.Reloading

namespace DocTyping

/-!
# Fields and their dotted names

The names of fields that are declared under one another, with dots between them, are
read as a path to the last of these fields.  The exception are numbers padded with
zeros: such a name is read as an index, which is looked up without the zeros, so
nothing leads to the field that has it.
-/

/-- Fields with these names, each declared in the object that the one before holds, lead from a
schema to another. -/
inductive Schema.Nests : List String → Schema → Schema → Prop
  | here {node : Schema} : Nests [] node node
  | field {name : String} {rest : List String} {shape : Shape Schema} {field : Field Schema}
      {goal : Schema} (declared : shape.find? name = some field)
      (onward : Nests rest field.node goal) : Nests (name :: rest) (.object shape) goal

variable {options : ResolveOptions} {root schema goal : Schema}
  {shape other holder : Shape Schema} {field : Field Schema}
  {names outer back front : List String} {name inner key : String} {segment : Segment}
  {segments rest : List Segment}

namespace Schema.Nests

theorem append {middle : Schema} (first : Nests front schema middle)
    (onward : Nests back middle goal) : Nests (front ++ back) schema goal := by
  induction first with
  | here => exact onward
  | field declared _ ih => exact .field declared (ih onward)

theorem exists_holder (nested : Nests (outer ++ inner :: back) schema goal) :
    ∃ holder, Nests outer schema (.object holder) ∧ holder.declares inner = true := by
  induction outer generalizing schema with
  | nil =>
      cases nested with
      | field declared _ => exact ⟨_, .here, by simp [Shape.declares, declared]⟩
  | cons name rest ih =>
      cases nested with
      | field declared onward =>
          obtain ⟨holder, inside, declares⟩ := ih onward
          exact ⟨holder, .field declared inside, declares⟩

theorem flawless (nested : Nests names schema goal) (flawless : schema.NamesFit Flawless) :
    ∀ name ∈ names, NameFlaw.of? name = none := by
  induction nested with
  | here => simp
  | @field name rest shape field goal declared _ ih =>
      obtain ⟨all, fields, _⟩ := namesFit_object_iff.mp flawless
      have member : field ∈ shape.fields := List.mem_of_find?_eq_some declared
      have named : field.name = name := by simpa using List.find?_some declared
      have head := all field.name (List.mem_map_of_mem member)
      rw [named] at head
      exact List.forall_mem_cons.mpr ⟨head, ih (fields field member)⟩

end Schema.Nests

/-! ### Reading declared names -/

namespace Segment

theorem Spells.key?_of_plain (spells : Spells name segment)
    (plain : Text.startsWithDollar name = false) : segment.key? = some segment.render := by
  cases spells with
  | first | every => contradiction
  | filtered sound => simp [Text.startsWithDollar] at plain
  | index numeral fits => rfl
  | name filled plain other => rfl

theorem Spells.key?_of_unpadded (spells : Spells name segment)
    (plain : Text.startsWithDollar name = false) (unpadded : ¬ IsPadded name) :
    segment.key? = some name := by
  rw [spells.key?_of_plain plain, spells.render_eq_iff.mpr unpadded]

theorem Spells.index_of_isPadded (spells : Spells name segment) (padded : IsPadded name) :
    segment = .index (decimal name.toList) := by
  cases spells with
  | first | every => exact absurd padded (not_isPadded_of_dollar rfl)
  | filtered sound =>
      exact absurd padded (not_isPadded_of_dollar (by simp [Text.startsWithDollar]))
  | index numeral fits => rfl
  | name filled plain other => exact absurd ⟨padded.numeral, padded.fits⟩ other

end Segment

theorem plain_of_flawless (flawless : NameFlaw.of? name = none) :
    Text.startsWithDollar name = false := by
  have plain := (NameFlaw.of?_eq_none_iff.mp flawless).2.1
  simpa [Text.startsWithDollar] using plain

/-- Names without a flaw are the parts of the text that joins them, and each writes some step. -/
theorem parse_joinDots (filled : names ≠ []) (flawless : ∀ name ∈ names, NameFlaw.of? name = none) :
    ∃ segments, List.Forall₂ Segment.Spells names segments ∧
      FieldPath.parse (Text.joinDots names) = .ok ⟨segments⟩ := by
  have parts : Text.splitDots (Text.joinDots names) = names := by
    apply Text.splitDots_joinDots filled
    intro name member
    exact (NameFlaw.of?_eq_none_iff.mp (flawless name member)).2.2
  have each : ∀ name ∈ names, ∃ segment, Segment.Spells name segment := by
    intro name member
    have some := (NameFlaw.of?_eq_none_iff.mp (flawless name member)).1
    apply Segment.exists_spells_iff.mpr
    exact ⟨fun empty => some (by simp [empty]), .inl (plain_of_flawless (flawless name member))⟩
  obtain ⟨segments, spells⟩ := exists_forall₂_iff.mpr each
  refine ⟨segments, spells, FieldPath.parse_eq_ok_iff.mpr ?_⟩
  rwa [parts]

/-! ### Walking along declared names -/

/-- Along fields that no padded number names, the steps lead where the fields do. -/
theorem Schema.Nests.leads (options : ResolveOptions) {budget : Nat} {here : Arrival}
    (nested : schema.Nests names goal)
    (spells : List.Forall₂ Segment.Spells (names ++ back) segments)
    (plain : ∀ name ∈ names, Text.startsWithDollar name = false)
    (unpadded : ∀ name ∈ names, ¬ Segment.IsPadded name) (place : here.node = schema)
    (within : names.length < budget) :
    ∃ there left remaining, there.node = goal ∧ List.Forall₂ Segment.Spells back left ∧
      walk options budget segments here = walk options (remaining + 1) left there := by
  induction nested generalizing here segments budget with
  | here =>
      obtain ⟨remaining, rfl⟩ := Nat.exists_eq_add_of_lt within
      exact ⟨here, segments, _, place, spells, rfl⟩
  | @field name later shape field _ declared _ ih =>
      cases spells with
      | @cons _ segment _ others head tail =>
          obtain ⟨first, following⟩ := List.forall_mem_cons.mp plain
          obtain ⟨whole, wholes⟩ := List.forall_mem_cons.mp unpadded
          have spelled := head.key?_of_unpadded first whole
          cases budget with
          | zero => contradiction
          | succ budget =>
              rw [walk_of_under? spelled place (Shape.under?_of_find? declared)]
              exact ih tail following wholes rfl (Nat.lt_of_succ_lt_succ within)

theorem Schema.Nests.walk_unpadded (options : ResolveOptions) {budget : Nat} {here : Arrival}
    (nested : schema.Nests front (.object shape))
    (declared : shape.find? name = some field)
    (spells : List.Forall₂ Segment.Spells (front ++ [name]) segments)
    (plain : ∀ part ∈ front ++ [name], Text.startsWithDollar part = false)
    (unpadded : ∀ part ∈ front ++ [name], ¬ Segment.IsPadded part) (place : here.node = schema)
    (within : front.length < budget) :
    ∃ there : Arrival, walk options budget segments here = .ok (there.enter field) := by
  obtain ⟨plains, last⟩ := List.forall_mem_append.mp plain
  obtain ⟨unpaddeds, final⟩ := List.forall_mem_append.mp unpadded
  obtain ⟨there, left, remaining, arrived, below, walked⟩ :=
    nested.leads options spells plains unpaddeds place within
  cases below with
  | @cons _ segment _ _ head tail =>
      cases tail
      have spelled := head.key?_of_unpadded (last name (by simp)) (final name (by simp))
      rw [walked, walk_of_under? spelled arrived (Shape.under?_of_find? declared)]
      exact ⟨there, by cases remaining <;> rfl⟩

/-- A padded number is missed where nothing has its name without the zeros. -/
theorem Schema.Nests.walk_padded (options : ResolveOptions) {budget : Nat} {here : Arrival}
    (nested : schema.Nests outer (.object holder))
    (spells : List.Forall₂ Segment.Spells (outer ++ inner :: back) segments)
    (plain : ∀ part ∈ outer, Text.startsWithDollar part = false)
    (unpadded : ∀ part ∈ outer, ¬ Segment.IsPadded part) (padded : Segment.IsPadded inner)
    (lacks : holder.child? (toString (Segment.decimal inner.toList)) = none)
    (place : here.node = schema) (within : outer.length < budget) :
    walk options budget segments here =
      .error (.notArray (toString (Segment.decimal inner.toList))) := by
  obtain ⟨there, left, remaining, arrived, below, walked⟩ :=
    nested.leads options spells plain unpadded place within
  cases below with
  | @cons _ segment _ _ head tail =>
      have blocks : Blocks options.allowPlaceholders there.node segment
          (.notArray (toString (Segment.decimal inner.toList))) := by
        rw [head.index_of_isPadded padded, arrived]
        exact .index lacks
      rw [walked, walk_of_blocks blocks]

theorem blocks_of_lacks (placeholders : Bool) (spelled : segment.key? = some key) :
    ∃ fault, ∀ node : Schema, node.Lacks key → Blocks placeholders node segment fault := by
  cases segment with
  | placeholder form => contradiction
  | name text =>
      cases spelled
      exact ⟨_, fun _ lacks => .field lacks⟩
  | index value =>
      cases spelled
      exact ⟨_, fun _ lacks => .index lacks⟩

/-- What a step does in an object depends only on what the object has under its key. -/
theorem walk_under?_congr {budget : Nat} {here : Arrival} (spelled : segment.key? = some key)
    (object : here.node = .object shape) (entry : other.under? key = shape.under? key) :
    walk options budget (segment :: rest) { here with node := .object other } =
      walk options budget (segment :: rest) here := by
  cases budget with
  | zero => rfl
  | succ budget =>
      cases found : shape.under? key with
      | none =>
          have lacks : (Schema.object shape).Lacks key := by
            simp [Schema.Lacks, Shape.child?_eq_under?, found]
          have lacksToo : (Schema.object other).Lacks key := by
            simp [Schema.Lacks, Shape.child?_eq_under?, entry, found]
          rw [← object] at lacks
          obtain ⟨fault, blocks⟩ := blocks_of_lacks options.allowPlaceholders spelled
          rw [walk_of_blocks (blocks _ lacksToo), walk_of_blocks (blocks _ lacks)]
      | some field =>
          rw [walk_of_under? spelled object found, walk_of_under? spelled rfl (entry.trans found)]
          rfl

/-- A walk along declared names does not notice whether a field with a padded name is there. -/
theorem walk_removePath {budget : Nat} {here : Arrival}
    (nested : schema.Nests outer (.object holder))
    (spells : List.Forall₂ Segment.Spells (outer ++ inner :: back) segments)
    (plain : ∀ name ∈ outer ++ inner :: back, Text.startsWithDollar name = false)
    (padded : Segment.IsPadded inner) (place : here.node = schema) :
    walk options budget segments { here with node := schema.removePath (outer ++ [inner]) } =
      walk options budget segments here := by
  generalize reached : Schema.object holder = last at nested
  induction nested generalizing here segments budget with
  | here =>
      subst reached
      cases spells with
      | @cons _ segment _ _ head _ =>
          have spelled := head.key?_of_plain (plain inner (by simp))
          have different : segment.render ≠ inner := by
            rw [Ne, head.render_eq_iff, not_not]
            exact padded
          rw [List.nil_append, Schema.removePath_object]
          apply walk_under?_congr spelled place
          exact Schema.under?_alter_of_ne different
  | @field name later shape field _ declared onward ih =>
      cases spells with
      | @cons _ segment _ others head tail =>
          obtain ⟨first, following⟩ := List.forall_mem_cons.mp plain
          have spelled := head.key?_of_plain first
          rw [List.cons_append, Schema.removePath_object]
          by_cases same : segment.render = name
          · rw [same] at spelled
            have filled : later ++ [inner] ≠ [] := by simp
            have held := Schema.under?_within filled declared
            cases budget with
            | zero => rfl
            | succ budget =>
                rw [walk_of_under? spelled rfl held,
                  walk_of_under? spelled place (Shape.under?_of_find? declared)]
                have entered : (here.enter field).node = field.node := rfl
                exact ih tail following entered reached
          -- An earlier padded name leads the walk past the removal already.
          · apply walk_under?_congr spelled place
            exact Schema.under?_alter_of_ne same

/-! ### Dotted names -/

/-- A loaded field is reached by its dotted name, unless a name on the way is a number that is
padded with zeros.  Whether the field of a padded name is there makes no difference, and if its
holder has nothing under the number without the zeros, the text is refused. -/
theorem resolveText_dottedName (loaded : root.IsLoaded) (nested : root.Nests front (.object shape))
    (declared : shape.find? name = some field) (within : front.length < options.maxDepth) :
    ((∀ part ∈ front ++ [name], ¬ Segment.IsPadded part) →
      ∃ resolved, resolveText root (Text.joinDots (front ++ [name])) options = .ok resolved ∧
        resolved.node = field.node ∧ resolved.arrival.optional = field.optional ∧
        resolved.arrival.nullable = field.nullable) ∧
    ∀ outer inner back, front ++ [name] = outer ++ inner :: back → Segment.IsPadded inner →
      resolveText (root.removePath (outer ++ [inner])) (Text.joinDots (front ++ [name])) options =
        resolveText root (Text.joinDots (front ++ [name])) options ∧
      ∃ holder, root.Nests outer (.object holder) ∧ holder.declares inner = true ∧
        ((∀ part ∈ outer, ¬ Segment.IsPadded part) →
          holder.child? (toString (Segment.decimal inner.toList)) = none →
            ∃ path, resolveText root (Text.joinDots (front ++ [name])) options =
              .error ⟨path, .notArray (toString (Segment.decimal inner.toList))⟩) := by
  have whole : root.Nests (front ++ [name]) field.node := nested.append (.field declared .here)
  have flawless := whole.flawless loaded.flawless
  have plain := fun part member => plain_of_flawless (flawless part member)
  obtain ⟨segments, spells, parsed⟩ := parse_joinDots (by simp) flawless
  have length := spells.length_eq
  have filled : segments ≠ [] := by
    rintro rfl
    simp at length
  have resolves : ∀ root, resolveText root (Text.joinDots (front ++ [name])) options =
      FieldPath.outcome ⟨segments⟩ options.checkInArray
        (walk options options.maxDepth segments { node := root }) := by
    intro root
    rw [← FieldPath.resolve_of_ne_nil filled, resolveText, parsed]
    rfl
  have start : ({ node := root } : Arrival).node = root := rfl
  simp only [resolves]
  constructor
  · intro unpadded
    obtain ⟨there, walked⟩ :=
      nested.walk_unpadded options declared spells plain unpadded start within
    exact ⟨_, FieldPath.outcome_eq_ok.mpr ⟨_, walked, rfl⟩, rfl, rfl, rfl⟩
  · intro outer inner back split padded
    rw [split] at spells plain whole
    obtain ⟨holder, inside, declares⟩ := whole.exists_holder
    have same : walk options options.maxDepth segments
        { node := root.removePath (outer ++ [inner]) } =
          walk options options.maxDepth segments { node := root } :=
      walk_removePath inside spells plain padded start
    refine ⟨congrArg _ same, holder, inside, declares, fun unpadded lacks => ?_⟩
    have shorter : outer.length < options.maxDepth := by
      have lengths := congrArg List.length split
      simp only [List.length_append, List.length_cons, List.length_nil] at lengths
      omega
    rw [inside.walk_padded options spells (List.forall_mem_append.mp plain).1 unpadded padded lacks
      start shorter]
    exact ⟨_, rfl⟩

def lockers : Shape Schema := ⟨[⟨"12", .string, false, true⟩, ⟨"007", .number, true, false⟩], none⟩

def hall : Schema := .object ⟨[⟨"lockers", .object lockers, false, false⟩], none⟩

theorem resolveText_dottedName_hall :
    (∃ resolved, resolveText hall "lockers.12" {} = .ok resolved ∧ resolved.node = .string ∧
      resolved.arrival.nullable = true) ∧
    ∃ path, resolveText hall "lockers.007" {} = .error ⟨path, .notArray "7"⟩ := by
  have loaded : hall.IsLoaded := ⟨"", hall.describe, rfl⟩
  have nested : hall.Nests ["lockers"] (.object lockers) := .field rfl .here
  have string : lockers.find? "12" = some ⟨"12", .string, false, true⟩ := rfl
  have number : lockers.find? "007" = some ⟨"007", .number, true, false⟩ := rfl
  have within : ["lockers"].length < ({} : ResolveOptions).maxDepth := by decide
  have unpadded : ∀ part ∈ ["lockers", "12"], ¬ Segment.IsPadded part := by
    have other : ∀ part ∈ ["lockers", "12"], part.toList.head? ≠ some '0' := by decide
    exact fun part member padded => other part member padded.zero
  have former : ∀ part ∈ ["lockers"], ¬ Segment.IsPadded part := by
    simpa using unpadded "lockers" (by simp)
  have padded : Segment.IsPadded "007" :=
    ⟨Segment.isNumeral_iff.mpr (by decide), by decide, by decide, by decide⟩
  obtain ⟨reaches, _⟩ := resolveText_dottedName loaded nested string within
  obtain ⟨resolved, resolves, node, _, nullable⟩ := reaches unpadded
  obtain ⟨_, misses⟩ := resolveText_dottedName loaded nested number within
  obtain ⟨_, holder, inside, _, refused⟩ := misses ["lockers"] "007" [] rfl padded
  cases inside with
  | field declared onward =>
      cases declared
      cases onward
      exact ⟨⟨resolved, resolves, node, nullable⟩, refused former rfl⟩

end DocTyping
