import DocTyping.Proofs.Expression.References
import DocTyping.Proofs.Literal.Unification
import DocTyping.Proofs.Path.Walk

namespace DocTyping

/-!
# Names in inferred types

Inference takes names from the root, from bound variables, from the keys of computed
documents and from literals; all other names are those of results with fixed fields.
So the names that an inferred type declares fit together wherever those do.
-/

section Walking

variable {fits : List String → Prop} {placeholders : Bool} {steps rest : List Segment}
  {here next goal : Arrival} {count : Nat}

theorem Move.namesFit (move : Move placeholders steps here rest next)
    (fit : here.node.NamesFit fits) : next.node.NamesFit fits := by
  cases move with
  | index array =>
      rw [array] at fit
      exact Schema.namesFit_array_iff.mp fit
  | placeholder _ array =>
      rw [array] at fit
      exact Schema.namesFit_array_iff.mp fit
  | skip array =>
      rw [array] at fit
      exact Schema.namesFit_array_iff.mp fit
  | field _ object found =>
      rw [object] at fit
      exact fit.child found

theorem Walks.namesFit (walks : Walks placeholders steps here count goal)
    (fit : here.node.NamesFit fits) : goal.node.NamesFit fits := by
  induction walks with
  | arrived => exact fit
  | stopped => exact fit
  | next first _ ih => exact ih (first.namesFit fit)

theorem Resolved.valueType_namesFit {root : Schema} {text : String} {options : ResolveOptions}
    {resolved : Resolved} (fit : root.NamesFit fits)
    (resolves : resolveText root text options = .ok resolved) :
    resolved.valueType.NamesFit fits := by
  obtain ⟨path, _, reached⟩ := bind_eq_ok.mp resolves
  obtain ⟨_, _, _, goal, walks, rfl⟩ := FieldPath.resolve_eq_ok_iff.mp reached
  have arrived := walks.namesFit fit
  unfold Resolved.valueType
  split
  · exact .array arrived
  · exact arrived

end Walking

structure Scope.NamesFit (fits : List String → Prop) (scope : Scope) : Prop where
  root : scope.root.NamesFit fits
  bindings : ∀ entry ∈ scope.bindings, entry.2.NamesFit fits

/-- A condition on documents that passes to what they hold, except under some keys. -/
structure PassesDown (closed : List String) (holds : Json → Prop) : Prop where
  null : holds .null
  item {items : List Json} (given : holds (.array items)) : ∀ item ∈ items, holds item
  entry {entries : List (String × Json)} (given : holds (.object entries)) :
    ∀ entry ∈ entries, entry.1 ∉ closed → holds entry.2

/-- A condition on expressions that passes to the parts that are evaluated with them, and under
which the names that an expression gives to fields fit together. -/
structure NameSource (fits : List String → Prop) (holds : Json → Prop) : Prop
    extends PassesDown Json.quotingKeys holds where
  keys {entries : List (String × Json)} (given : holds (.object entries))
    (plain : hasOperatorKey entries = false) (undotted : ∀ entry ∈ entries, '.' ∉ entry.1.toList) :
    fits (Keyed.names entries)
  literal {argument : Json} (given : holds (.object [("$literal", argument)])) :
    argument.type.NamesFit fits

namespace Scope

variable {fits : List String → Prop} {scope : Scope} {type result : Schema}

theorem NamesFit.bindAll {added : Bindings} (fit : scope.NamesFit fits)
    (each : ∀ entry ∈ added, entry.2.NamesFit fits) : (scope.bindAll added).NamesFit fits := by
  refine ⟨fit.root, fun entry member => ?_⟩
  rcases List.mem_append.mp member with new | held
  · exact each entry (List.mem_reverse.mp new)
  · exact fit.bindings entry held

theorem NamesFit.bind (name : String) (fit : scope.NamesFit fits)
    (inside : type.NamesFit fits) : (scope.bind name type).NamesFit fits :=
  ⟨fit.root, List.forall_mem_cons.mpr ⟨inside, fit.bindings⟩⟩

theorem select_namesFit {path : Option String} (fit : type.NamesFit fits)
    (selected : scope.select type path = .ok result) : result.NamesFit fits := by
  cases path with
  | none =>
      cases selected
      exact fit
  | some path =>
      obtain ⟨resolved, found, made⟩ := bind_eq_ok.mp selected
      cases made
      exact Resolved.valueType_namesFit fit (resolveChecked_eq_ok.mp found)

theorem variableType_namesFit {reference : List Char} (fit : scope.NamesFit fits)
    (accepted : scope.variableType reference = .ok type) : type.NamesFit fits := by
  unfold variableType at accepted
  generalize splitFirstDot reference = parts at accepted
  obtain ⟨name, path⟩ := parts
  simp only at accepted
  split at accepted
  · rename_i found
    have bound := fit.bindings _ (Keyed.mem_of_lookup found)
    exact select_namesFit bound accepted
  · split at accepted
    · exact select_namesFit fit.root accepted
    · exact select_namesFit fit.root accepted
    · cases accepted
      exact .scalar _
    · cases accepted
      exact .scalar _
    · cases accepted
      exact .scalar _
    · contradiction

theorem textType_namesFit {text : String} (fit : scope.NamesFit fits)
    (accepted : scope.textType text = .ok type) : type.NamesFit fits := by
  unfold textType at accepted
  split at accepted
  · exact variableType_namesFit fit accepted
  · exact select_namesFit fit.root accepted
  · cases accepted
    exact .scalar _

end Scope

section Results

variable {fits : List String → Prop}

theorem closedObject_namesFit {fields : List (String × Schema)} (names : fits (Keyed.names fields))
    (each : ∀ field ∈ fields, field.2.NamesFit fits) : (closedObject fields).NamesFit fits := by
  refine .object ?_ ?_ (by simp)
  · simpa [Shape.names, Keyed.names, Function.comp_def] using names
  · intro field member
    obtain ⟨entry, held, rfl⟩ := List.mem_map.mp member
    exact each entry held

theorem element?_getD_namesFit {type default : Schema} (fit : type.NamesFit fits)
    (fallback : default.NamesFit fits) : (type.element?.getD default).NamesFit fits := by
  cases fit with
  | array inside => exact inside
  | _ => exact fallback

theorem elementOf_namesFit {type : Schema} (fit : type.NamesFit fits) :
    (elementOf type).NamesFit fits :=
  element?_getD_namesFit fit (.scalar _)

theorem arrayOrUnknown_namesFit {type : Option Schema} (fit : ∀ held ∈ type, held.NamesFit fits) :
    (arrayOrUnknown type).NamesFit fits := by
  unfold arrayOrUnknown
  split
  · exact fit _ rfl
  · exact .array (.scalar _)

structure ArgumentTypes.NamesFit (fits : List String → Prop) (types : ArgumentTypes) : Prop where
  positional : ∀ type ∈ types.positional, type.NamesFit fits
  named : ∀ entry ∈ types.named, entry.2.NamesFit fits

theorem ArgumentTypes.NamesFit.input {types : ArgumentTypes} {type : Schema}
    (fit : types.NamesFit fits) (found : types.input? = some type) : type.NamesFit fits := by
  rcases Option.or_eq_some_iff.mp found with first | ⟨_, named⟩
  · exact fit.positional type (List.mem_of_head? first)
  · exact fit.named _ (Keyed.mem_of_lookup named)

variable (rule : NameRule fits)

include rule

theorem commonType_namesFit {types : List Schema} (each : ∀ type ∈ types, type.NamesFit fits) :
    (commonType types).NamesFit fits := by
  unfold commonType
  split
  · exact Schema.unifyAll_namesFit rule each
  · rename_i others _
    refine Schema.unifyAll_namesFit rule fun type member => each type ?_
    exact List.mem_of_mem_filter member

theorem overlay_namesFit {below above : Shape Schema} (fit : (Schema.object below).NamesFit fits)
    (aboveFit : (Schema.object above).NamesFit fits) :
    (Schema.object (overlay below above)).NamesFit fits := by
  obtain ⟨names, fields, additional⟩ := Schema.namesFit_object_iff.mp fit
  obtain ⟨aboveNames, aboveFields, aboveAdditional⟩ := Schema.namesFit_object_iff.mp aboveFit
  refine .object (rule.foldl_putField names fun field member => ?_) (fun field member => ?_) ?_
  · exact rule.single aboveNames (List.mem_map_of_mem member)
  · rcases Shape.mem_foldl_putField member with held | written
    · exact fields field held
    · exact aboveFields field written
  · intro node admitted
    rcases Option.or_eq_some_iff.mp admitted with first | ⟨_, second⟩
    · exact aboveAdditional node first
    · exact additional node second

theorem openObject_namesFit : openObject.NamesFit fits := by
  refine .object rule.nil (by simp [Shape.openTo]) ?_
  intro node admitted
  cases admitted
  exact .scalar _

theorem mergeObjectTypes_namesFit {types : List Schema} {merged : Shape Schema}
    (each : ∀ type ∈ types, type.NamesFit fits) (fit : (Schema.object merged).NamesFit fits) :
    (mergeObjectTypes types merged).NamesFit fits := by
  induction types generalizing merged with
  | nil => exact fit
  | cons first rest ih =>
      obtain ⟨head, tail⟩ := List.forall_mem_cons.mp each
      cases first with
      | object shape => exact ih tail (overlay_namesFit rule fit head)
      | array element => exact openObject_namesFit rule
      | scalar kind =>
          by_cases isNull : kind = .null
          · subst isNull
            exact ih tail fit
          · have hidden : mergeObjectTypes (.scalar kind :: rest) merged = openObject := by
              cases kind <;> first | contradiction | rfl
            rw [hidden]
            exact openObject_namesFit rule

theorem patternMatchType_namesFit : patternMatchType.NamesFit fits := by
  refine closedObject_namesFit (rule.known (by decide) (by decide)) ?_
  exact List.forall_mem_cons.mpr ⟨.scalar _, List.forall_mem_cons.mpr
    ⟨.scalar _, List.forall_mem_singleton.mpr (.array (.scalar _))⟩⟩

end Results

namespace ExprOperator

variable {fits : List String → Prop} {operator : ExprOperator} {argument : Json}
  {types : ArgumentTypes}

theorem candidates_namesFit (fit : types.NamesFit fits) :
    ∀ type ∈ operator.candidates argument types, type.NamesFit fits := by
  unfold candidates
  split
  · split
    · rename_i condition consequence alternative positional
      have given := fit.positional
      rw [positional] at given
      exact fun type member => given type (List.mem_cons_of_mem _ member)
    · intro type member
      obtain ⟨key, _, found⟩ := List.mem_filterMap.mp member
      exact fit.named _ (Keyed.mem_of_lookup found)
  · refine List.forall_mem_append.mpr ⟨fit.positional, fun type member => ?_⟩
    exact fit.named _ (Keyed.mem_of_lookup (Option.mem_toList.mp member))
  · split
    · exact fit.positional
    · refine List.forall_mem_map.mpr fun type member => ?_
      exact element?_getD_namesFit (fit.positional type member) (fit.positional type member)
  · exact fit.positional

theorem mergeSources_namesFit (fit : types.NamesFit fits) :
    ∀ type ∈ mergeSources argument types, type.NamesFit fits := by
  unfold mergeSources
  split
  · rename_i text type positional
    have given : type.NamesFit fits := fit.positional type (by simp [positional])
    intro element member
    cases given with
    | array inside =>
        obtain rfl : element = _ := by simpa [Schema.element?] using member
        exact inside
    | _ => simp [Schema.element?] at member
  · exact fit.positional

theorem conversionType_namesFit : (conversionType argument).NamesFit fits := by
  unfold conversionType
  split
  · split <;> exact .scalar _
  · exact .scalar _

theorem resultType_namesFit (rule : NameRule fits) (fit : types.NamesFit fits) :
    (operator.resultType argument types).NamesFit fits := by
  unfold resultType
  split
  · exact .scalar _
  · exact .array (.scalar _)
  · exact .array (.scalar _)
  · exact arrayOrUnknown_namesFit fun type found => fit.input found
  · cases found : types.input? with
    | none => exact .scalar _
    | some type => exact elementOf_namesFit (fit.input found)
  · exact commonType_namesFit rule (candidates_namesFit fit)
  · exact mergeObjectTypes_namesFit rule (mergeSources_namesFit fit) (Schema.empty_namesFit rule)
  · refine closedObject_namesFit (rule.known (by decide) (by decide)) ?_
    exact List.forall_mem_map.mpr fun _ _ => .scalar _
  · exact patternMatchType_namesFit rule
  · exact .array (patternMatchType_namesFit rule)
  · refine .array (closedObject_namesFit (rule.known (by decide) (by decide)) ?_)
    exact List.forall_mem_cons.mpr ⟨.scalar _, List.forall_mem_singleton.mpr (.scalar _)⟩
  · exact openObject_namesFit rule
  · exact conversionType_namesFit
  all_goals exact .scalar _

end ExprOperator

theorem Json.not_quoting_of_plain {entries : List (String × Json)} {entry : String × Json}
    (plain : hasOperatorKey entries = false) (member : entry ∈ entries) :
    entry.1 ∉ quotingKeys := by
  intro quoting
  have marked : ∀ key ∈ quotingKeys, Text.startsWithDollar key = true := by decide
  exact List.any_eq_false.mp plain entry member (marked entry.1 quoting)

theorem Json.not_quoting_of_variable {name : String} (valid : isVariableName name = true) :
    name ∉ quotingKeys := by
  intro quoting
  have invalid : ∀ key ∈ quotingKeys, isVariableName key = false := by decide
  rw [invalid name quoting] at valid
  contradiction

/-- Named parts are evaluated: none of them stands under a key of a literal. -/
theorem ExprOperator.Divides.not_quoting {operator : ExprOperator} {name : String}
    {argument : Json} {parts : ArgumentParts} (divides : operator.Divides argument parts)
    (known : named? name = some operator) (ordinary : name ∉ "$literal" :: bindingOperators) :
    ∀ entry ∈ parts.named, entry.1 ∉ Json.quotingKeys := by
  have evaluated : ∀ operator ∈ all, ∀ key ∈ operator.args.argumentNames,
      key ∉ Json.quotingKeys := by decide +kernel
  have listed := (named?_eq_some known).1
  intro entry member
  cases divides with
  | named divided _ _ fits =>
      have names := argumentNames_of_fits known ordinary divided fits entry member
      exact evaluated operator listed entry.1 names.1
  | branches =>
      obtain ⟨value, _, rfl⟩ := List.mem_map.mp member
      have plain : "default" ∉ Json.quotingKeys := by decide
      exact plain
  | _ => exact absurd member List.not_mem_nil

namespace PassesDown

variable {closed : List String} {holds : Json → Prop} {entries : List (String × Json)}
  {key name : String} {part value argument : Json} (passes : PassesDown closed holds)

include passes

theorem lookup (given : holds (.object entries)) (found : entries.lookup key = some value)
    (passed : key ∉ closed) : holds value :=
  passes.entry given _ (Keyed.mem_of_lookup found) passed

theorem application (given : holds (.object [(name, argument)])) (passed : name ∉ closed) :
    holds argument :=
  passes.entry given _ List.mem_cons_self passed

theorem under (given : holds (.object entries)) (passed : key ∉ closed) :
    holds (Json.under key entries) := by
  unfold Json.under
  cases found : entries.lookup key with
  | none => exact passes.null
  | some value => exact passes.lookup given found passed

theorem branch {branch : Json} (shaped : IsBranch name branch) (given : holds branch)
    (passed : key ∉ closed) : holds (Json.under key branch.entriesOf) := by
  obtain ⟨entries, rfl, _⟩ := shaped
  exact passes.under given passed

theorem parts {operator : ExprOperator} {parts : ArgumentParts}
    (divides : operator.Divides argument parts) (quoting : closed ⊆ Json.quotingKeys)
    (named : ∀ entry ∈ parts.named, entry.1 ∉ closed) (given : holds argument) :
    ∀ part ∈ parts.all, holds part := by
  have passed : ∀ key ∈ ["branches", "default", "case", "then"], key ∉ closed := by
    intro key listed member
    have plain : ∀ key ∈ ["branches", "default", "case", "then"], key ∉ Json.quotingKeys := by
      decide
    exact plain key listed (quoting member)
  cases divides with
  | whole => simpa [ArgumentParts.all] using given
  | items => exact ArgumentParts.forall_mem_all.mpr ⟨passes.item given, by simp, by simp⟩
  | nothing => simp [ArgumentParts.all]
  | named =>
      refine ArgumentParts.forall_mem_all.mpr ⟨by simp, ?_, by simp⟩
      exact fun entry member => passes.entry given entry member (named entry member)
  | branches _ _ stated _ shaped =>
      have branches := passes.item (passes.lookup given stated (passed _ (by decide)))
      refine ArgumentParts.forall_mem_all.mpr ⟨?_, ?_, ?_⟩
      · exact List.forall_mem_map.mpr fun branch member =>
          passes.branch (shaped branch member) (branches branch member) (passed _ (by decide))
      · exact List.forall_mem_map.mpr fun value found =>
          passes.lookup given (Option.mem_toList.mp found) (passed _ (by decide))
      · exact List.forall_mem_map.mpr fun branch member =>
          passes.branch (shaped branch member) (branches branch member) (passed _ (by decide))

end PassesDown

theorem Json.HasType.namesFit {fits : List String → Prop} {holds : Json → Prop} {scope : Scope}
    {value : Json} {type : Schema} (rule : NameRule fits) (source : NameSource fits holds)
    (typed : HasType scope value type) (fit : scope.NamesFit fits) (given : holds value) :
    type.NamesFit fits := by
  induction typed with
  | null => exact .scalar _
  | bool => exact .scalar _
  | number => exact .scalar _
  | text typed => exact Scope.textType_namesFit fit typed
  | array _ each =>
      refine .array (Schema.unifyAll_namesFit rule (List.forall_mem_map.mpr fun item member => ?_))
      exact each item member fit (source.item given item member)
  | extended => exact .scalar _
  | document _ plain undotted _ each =>
      refine closedObject_namesFit ?_ (List.forall_mem_map.mpr fun entry member => ?_)
      · simpa [Keyed.names, Function.comp_def] using source.keys given plain undotted
      · have evaluated := source.entry given entry member (not_quoting_of_plain plain member)
        exact each entry member fit evaluated
  | literal => exact source.literal given
  | applied known ordinary divides _ each =>
      have argument :=
        source.application given (ExprOperator.not_quoting_of_named? known ordinary)
      have inside := source.parts divides (List.Subset.refl _)
        (divides.not_quoting known ordinary) argument
      have typed := fun part member => each part member fit (inside part member)
      obtain ⟨positional, named, _⟩ := ArgumentParts.forall_mem_all.mp typed
      refine ExprOperator.resultType_namesFit rule ⟨?_, ?_⟩
      · exact List.forall_mem_map.mpr positional
      · exact List.forall_mem_map.mpr named
  | map _ _ _ _ outside inside =>
      have arguments := source.application given (by decide)
      have input := outside fit (source.under arguments (by decide))
      exact .array (inside (fit.bind _ (elementOf_namesFit input))
        (source.under arguments (by decide)))
  | filter _ _ _ _ _ outside _ _ =>
      have arguments := source.application given (by decide)
      refine arrayOrUnknown_namesFit fun type same => ?_
      cases same
      exact outside fit (source.under arguments (by decide))
  | reduce _ _ _ _ outside started inside =>
      have arguments := source.application given (by decide)
      have input := outside fit (source.under arguments (by decide))
      have initial := started fit (source.under arguments (by decide))
      refine inside (fit.bindAll ?_) (source.under arguments (by decide))
      exact List.forall_mem_cons.mpr
        ⟨elementOf_namesFit input, List.forall_mem_singleton.mpr initial⟩
  | lets _ stated names _ _ outside inside =>
      have arguments := source.application given (by decide)
      have vars := source.entry (source.lookup arguments stated (by decide))
      refine inside (fit.bindAll ?_) (source.under arguments (by decide))
      refine List.forall_mem_map.mpr fun entry member => ?_
      have evaluated := vars entry member (not_quoting_of_variable (names entry member))
      exact outside entry member fit evaluated

end DocTyping
