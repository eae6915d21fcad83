import DocTyping.Proofs.Filter.Equality
import DocTyping.Proofs.Filter.Negations
import DocTyping.Proofs.Literal.Widths
import DocTyping.Proofs.Update.Pulling

namespace DocTyping

/-!
# Integers in filters and updates

What a filter compares with a field and what an update writes to it conforms to the type of the
field or of its elements.  So no integer in it leaves the range of the scalar that it stands for.
-/

/-- The literals that an operator compares with a field, given its argument. -/
def FilterArgument.literals : FilterArgument → Json → List Json
  | .fieldValue, argument | .fieldValueOrPattern, argument => [argument]
  | .fieldValues, .array items => items
  | .elementValues, .array items => items.filter fun item => item.elementFilter?.isNone
  | .negation, argument => if argument.isLiteralNegation then [argument] else []
  | _, _ => []

/-- A literal that a level of a filter compares with a field, or with its elements. -/
inductive FilterLevel.Compares (config : Configuration) : FilterLevel → Schema → Json → Prop
  | condition {root : Schema} {entries : List (String × Json)} {path : String}
      {resolved : Resolved} {literal : Json} (stated : (path, literal) ∈ entries)
      (field : Text.startsWithDollar path = false)
      (resolves : resolveText root path config.resolveOptions = .ok resolved)
      (plain : literal.isLiteralCondition = true) :
      Compares config (.clauses root entries) resolved.node literal
  | argument {root node : Schema} {entries : List (String × Json)} {name : String}
      {argument literal : Json} {operator : FilterOperator} (stated : (name, argument) ∈ entries)
      (known : FilterOperator.named? name = some operator)
      (member : literal ∈ operator.argument.literals argument) :
      Compares config (.operators root node entries) node literal

/-- The elements that an insertion into an array adds: those of a list among modifiers, or a single
one. -/
def Json.insertedElements : Json → List Json
  | .object entries =>
    if hasOperatorKey entries && (extendedKind? entries).isNone then
      ((entries.lookup "$each").bind array?).getD []
    else [.object entries]
  | value => [value]

/-- The values that an update gives for a field, each with the type of the field or of its
elements. -/
def UpdatePayload.values (form : UpdatePayload) (node : Schema) (payload : Json) :
    List (Schema × Json) :=
  match form with
  | value | insertValue => [(node, payload)]
  | push | addToSet => payload.insertedElements.map (node.element?.getD .unknown, ·)
  | pullAll => (payload.array?.getD []).map (node.element?.getD .unknown, ·)
  | _ => []

namespace Schema

variable {schema element : Schema} {value : Json} {nullable : Bool} {presence : Presence}

/-- No integer leaves its range where a value is compared with a field or with its elements. -/
def KeepsRanges (schema : Schema) (value : Json) : Prop :=
  schema.KeepsRange value ∧ ∀ element, schema = array element → element.KeepsRange value

theorem keepsRanges_of_admits (admitted : schema.admits value nullable presence = true) :
    schema.KeepsRanges value := by
  refine ⟨admits_keepsRange admitted, ?_⟩
  intro element same kind low high fill number ranged around stated
  subst same stated
  rw [array_not_admits around] at admitted
  contradiction

theorem keepsRanges_of_element (admitted : element.admits value nullable presence = true) :
    (array element).KeepsRanges value := by
  refine ⟨?_, ?_⟩
  · intro kind low high fill number ranged around stated
    cases around with
    | element inside =>
        subst stated
        rw [element_not_admits inside ranged] at admitted
        contradiction
  · intro other same
    cases same
    exact admits_keepsRange admitted

theorem keepsRange_scalar {kind : ScalarKind} (free : kind.range? = none) :
    (scalar kind).KeepsRange value := by
  intro other low high fill number ranged around stated
  cases around
  rw [free] at ranged
  contradiction

/-- There is no place for an integer where patterns are admitted. -/
theorem keepsRanges_of_admitsPattern (texts : schema.admitsPattern = true) :
    schema.KeepsRanges value := by
  have free : ∀ {node : Schema} {value : Json}, Capability.string.admits node = true →
      node.KeepsRange value := by
    intro node value text
    cases node with
    | scalar kind =>
        have named : kind = .string := by simpa [Capability.admits, scalarKind?] using text
        exact keepsRange_scalar (named ▸ rfl)
    | _ => contradiction
  simp only [admitsPattern, Bool.or_eq_true, any_element_iff] at texts
  rcases texts with text | ⟨element, rfl, text⟩
  · refine ⟨free text, fun element same => ?_⟩
    subst same
    contradiction
  · refine ⟨?_, fun other same => ?_⟩
    · intro kind low high fill number ranged around stated
      cases around with
      | element inside => exact free text kind low high _ number ranged inside rfl
    · cases same
      exact free text

end Schema

theorem FilterTarget.keepsRanges {target : FilterTarget} {allowPattern : Bool} {value : Json}
    (fits : target.fits allowPattern value = true) : target.node.KeepsRanges value := by
  simp only [FilterTarget.fits, Bool.or_eq_true, Schema.any_element_iff, Bool.and_eq_true] at fits
  rcases fits with (admitted | ⟨element, array, admitted⟩) | ⟨_, texts⟩
  · exact Schema.keepsRanges_of_admits admitted
  · exact array ▸ Schema.keepsRanges_of_element admitted
  · exact Schema.keepsRanges_of_admitsPattern texts

theorem FilterTarget.keepsRanges_of_checkElement {target : FilterTarget} {value : Json}
    (array : ∃ element, target.node = .array element)
    (accepted : target.checkElement value = .ok ()) : target.node.KeepsRanges value := by
  obtain ⟨element, array⟩ := array
  rw [FilterTarget.checkElement_eq_ok, FilterTarget.element_of_array array] at accepted
  rw [array]
  rcases accepted with admitted | ⟨_, text⟩
  · exact Schema.keepsRanges_of_element admitted
  · apply Schema.keepsRanges_of_admitsPattern
    simp [Schema.admitsPattern, Schema.element?, text]

theorem FilterTarget.array_of_elementValues {target : FilterTarget} {operator : FilterOperator}
    {name : String} (found : target.operator name = .ok operator)
    (listed : operator.argument = .elementValues) : ∃ element, target.node = .array element := by
  have table : ∀ operator ∈ FilterOperator.all,
      operator.argument = .elementValues → operator.capability = .arrayOf .any := by decide
  obtain ⟨known, admitted⟩ := FilterTarget.operator_eq_ok.mp found
  rw [table operator (FilterOperator.named?_eq_some known).1 listed, Capability.admits,
    Schema.any_element_iff] at admitted
  obtain ⟨element, array, _⟩ := admitted
  exact ⟨element, array⟩

theorem Json.checkOperator_keepsRanges {context : FilterContext} {root : Schema}
    {target : FilterTarget} {operator : FilterOperator} {name : String} {argument literal : Json}
    (found : target.operator name = .ok operator)
    (accepted : checkOperator context root target operator name argument = .ok ())
    (member : literal ∈ operator.argument.literals argument) : target.node.KeepsRanges literal := by
  unfold checkOperator at accepted
  cases form : operator.argument with
  | fieldValue =>
      rw [form] at accepted member
      cases List.mem_singleton.mp member
      exact FilterTarget.keepsRanges (FilterTarget.checkLiteral_eq_ok.mp accepted)
  | fieldValueOrPattern =>
      rw [form] at accepted member
      cases List.mem_singleton.mp member
      exact FilterTarget.keepsRanges (FilterTarget.checkLiteral_eq_ok.mp accepted)
  | fieldValues =>
      rw [form] at accepted member
      cases argument with
      | array items =>
          exact FilterTarget.keepsRanges
            (FilterTarget.checkLiterals_eq_ok.mp accepted literal member)
      | _ => contradiction
  | elementValues =>
      have array := FilterTarget.array_of_elementValues found form
      rw [form] at accepted member
      cases argument with
      | array items =>
          obtain ⟨listed, plain⟩ := List.mem_filter.mp member
          have checked := checkEachElement_eq_ok.mp accepted literal listed
          rw [checkItem, Option.isNone_iff_eq_none.mp plain] at checked
          exact FilterTarget.keepsRanges_of_checkElement array checked
      | _ => contradiction
  | negation =>
      rw [form] at accepted member
      simp only [FilterArgument.literals] at member
      split at member
      · rename_i plain
        cases List.mem_singleton.mp member
        exact FilterTarget.keepsRanges ((checkNegation_literal plain).mp accepted)
      · contradiction
  | _ =>
      rw [form] at member
      contradiction

theorem FilterLevel.Accepted.keepsRanges {context : FilterContext} {level : FilterLevel}
    {node : Schema} {literal : Json} (accepted : level.Accepted context)
    (compares : level.Compares context.config node literal) : node.KeepsRanges literal := by
  cases compares with
  | condition stated field resolves plain =>
      rcases Json.checkClauses_of_mem accepted stated with
        ⟨operator, _⟩ | ⟨_, target, addressed, checked⟩
      · rw [field] at operator
        contradiction
      · obtain ⟨resolved, resolvesToo, rfl⟩ := FilterContext.target_eq_ok.mp addressed
        cases resolves.symm.trans resolvesToo
        exact FilterTarget.keepsRanges ((Json.checkCondition_literal plain).mp checked)
  | argument stated known member =>
      obtain ⟨target, rfl, _, operators⟩ := accepted
      obtain ⟨operator, found, checked⟩ := Json.checkOperators_of_mem operators stated
      obtain ⟨again, _⟩ := FilterTarget.operator_eq_ok.mp found
      cases known.symm.trans again
      exact Json.checkOperator_keepsRanges found checked member

variable {config : Configuration} {root : Schema} {target : UpdateTarget} {payload : Json}

theorem checkInsertion_values {name : String} {allowed : List String} {item : Json}
    (accepted : checkInsertion config name allowed target payload = .ok ())
    (member : item ∈ payload.insertedElements) : target.element.KeepsRange item := by
  cases payload with
  | object entries =>
      simp only [Json.insertedElements] at member
      simp only [checkInsertion] at accepted
      split at accepted
      · rename_i modifies
        rw [if_pos modifies] at member
        obtain ⟨_, ⟨items, stated, each⟩, _⟩ := checkModifiers_eq_ok.mp accepted
        rw [stated] at member
        exact Schema.admits_keepsRange (each item member)
      · rename_i single
        rw [if_neg single] at member
        cases List.mem_singleton.mp member
        exact Schema.admits_keepsRange (expectConforming_eq_ok.mp accepted)
  | _ =>
      cases List.mem_singleton.mp member
      exact Schema.admits_keepsRange (expectConforming_eq_ok.mp accepted)

theorem UpdatePayload.check_keepsRange {form : UpdatePayload} {name : String}
    {given : Schema × Json} (accepted : form.check config name target payload = .ok ())
    (member : given ∈ form.values target.node payload) : given.1.KeepsRange given.2 := by
  cases form with
  | value =>
      cases List.mem_singleton.mp member
      exact Schema.admits_keepsRange (expectConforming_eq_ok.mp accepted)
  | insertValue =>
      cases List.mem_singleton.mp member
      exact Schema.admits_keepsRange (expectConforming_eq_ok.mp accepted)
  | push =>
      obtain ⟨item, listed, rfl⟩ := List.mem_map.mp member
      exact checkInsertion_values accepted listed
  | addToSet =>
      obtain ⟨item, listed, rfl⟩ := List.mem_map.mp member
      exact checkInsertion_values accepted listed
  | pullAll =>
      obtain ⟨item, listed, rfl⟩ := List.mem_map.mp member
      cases payload with
      | array items =>
          exact Schema.admits_keepsRange (expectAllConforming_eq_ok.mp accepted item listed)
      | _ => contradiction
  | _ => contradiction

/-- What an accepted entry of an update gives keeps its ranges at the place of its path. -/
theorem single_keepsRange {name : String} {entry : String × Json}
    (accepted : (Json.singleUpdate name entry).checkUpdate config root = .ok ()) :
    ∃ operator resolved, UpdateOperator.named? name = some operator ∧
      resolveText root entry.1
        { config.resolveOptions with allowPlaceholders := operator.allowPlaceholders } =
          .ok resolved ∧
      ∀ given ∈ operator.payload.values resolved.node entry.2, given.1.KeepsRange given.2 := by
  obtain ⟨operator, known, targets, accepted⟩ := single_eq_ok.mp accepted
  obtain ⟨path, target, parsed, addressed, checked⟩ := entryTargets_eq_ok.mp accepted
  obtain ⟨_, resolves, _⟩ := checkTarget_eq_ok.mp addressed
  obtain ⟨resolved, reached, rfl⟩ := resolveTarget_eq_ok.mp resolves
  refine ⟨operator, resolved, known, bind_eq_ok.mpr ⟨path, parsed, reached⟩, ?_⟩
  intro given member
  split at checked
  · rename_i renames
    rw [renames] at member
    contradiction
  · exact UpdatePayload.check_keepsRange checked.1 member

open Relation in
/-- Every integer that conforms to a schema, at any depth, lies in the range of the scalar that it
stands for, and any other integer of that range could stand there instead.  So do the literals on
all levels of an accepted filter and the values that an accepted update gives. -/
theorem integers_keep_ranges (context : FilterContext) (root : Schema) :
    (∀ value nullable presence, root.admits value nullable presence = true →
      root.KeepsRange value) ∧
    (∀ (kind : ScalarKind) low high fill number other nullable presence,
      kind.range? = some (low, high) → root.Around kind fill →
        (Number.int64Min ≤ number ∧ number ≤ Number.int64Max) → (low ≤ other ∧ other ≤ high) →
          root.admits (fill (.ofInt number)) nullable presence = true →
            root.admits (fill (.ofInt other)) nullable presence = true) ∧
    (∀ entries, (Json.object entries).checkFilter context root = .ok () →
      ∀ level node literal,
        ReflTransGen (FilterLevel.Holds context.config) (.clauses root entries) level →
          level.Compares context.config node literal → node.KeepsRanges literal) ∧
    ∀ update : Json, update.checkUpdate context.config root = .ok () →
      ∀ stated ∈ update.updateEntries, ∃ operator resolved,
        UpdateOperator.named? stated.1 = some operator ∧
        resolveText root stated.2.1
          { context.config.resolveOptions with allowPlaceholders := operator.allowPlaceholders } =
            .ok resolved ∧
        ∀ given ∈ operator.payload.values resolved.node stated.2.2,
          given.1.KeepsRange given.2 := by
  refine ⟨fun _ _ _ => Schema.admits_keepsRange, ?_, ?_, ?_⟩
  · intro kind low high fill number other nullable presence ranged around signed within
    exact Schema.admits_fill around ranged signed within
  · intro entries accepted level node literal nested compares
    obtain ⟨_, same, _, clauses⟩ := Json.checkFilter_eq_ok.mp accepted
    cases same
    have top : (FilterLevel.clauses root entries).Accepted context := clauses
    exact (top.nested nested).keepsRanges compares
  · intro update accepted stated listed
    exact single_keepsRange (single_of_accepted accepted listed)

def articles : Schema := closedObject [("views", .array (.scalar .long))]

def manyViews : Json := .ofInt 9223372036854775808

/-- Articles with more views than any signed integer counts. -/
def viewedArticles : List (String × Json) := [("views", .object [("$gt", manyViews)])]

open Relation in
/-- A long integer may be larger than all signed ones, and be filtered for as well. -/
theorem integers_keep_ranges_articles :
    articles.admits (.object [("views", .array [manyViews])]) false .full = true ∧
      (Json.object viewedArticles).checkFilter { config := {} } articles = .ok () ∧
      (Schema.array (.scalar .long)).KeepsRanges manyViews := by
  obtain ⟨_, others, filters, _⟩ := integers_keep_ranges { config := {} } articles
  have around : articles.Around .long fun value => .object [("views", .array [value])] :=
    @Schema.Around.entry .long _ "views" _ _ [] [] rfl
      (@Schema.Around.element .long _ _ [] [] .here)
  have accepted : (Json.object viewedArticles).checkFilter { config := {} } articles = .ok () :=
    eq_ok_iff_isOk.mpr (by decide +kernel)
  refine ⟨?_, accepted, ?_⟩
  · have few : articles.admits (.object [("views", .array [.ofInt 7])]) false .full = true := by
      decide
    exact others .long _ _ _ 7 9223372036854775808 false .full rfl around (by decide) (by decide)
      few
  · have nested : ReflTransGen (FilterLevel.Holds {}) (.clauses articles viewedArticles)
        (.operators articles (.array (.scalar .long)) [("$gt", manyViews)]) := by
      refine .head (.condition List.mem_cons_self rfl rfl rfl) ?_
      exact .refl
    exact filters _ accepted _ _ _ nested (.argument List.mem_cons_self rfl List.mem_cons_self)

end DocTyping
