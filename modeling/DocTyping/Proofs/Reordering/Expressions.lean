import DocTyping.Proofs.Expression.Typing
import DocTyping.Proofs.Reordering.Types

namespace DocTyping

/-!
# Expressions up to the order of keys

Two expressions that differ in the order of keys have equal types, in scopes whose
variables have equal types.  The arguments of an operator are divided into parts
that differ in the order of keys themselves; a variable may get a type with its
fields in another order, so scopes are compared, too.
-/

/-- Scopes that resolve paths alike and whose roots and variables have equal types. -/
structure Scope.Alike (scope other : Scope) : Prop where
  root : scope.root.Same other.root
  options : scope.options = other.options
  bindings : ∀ name,
    Option.Rel Schema.Same (scope.bindings.lookup name) (other.bindings.lookup name)

namespace Scope

variable {scope other : Scope} {type result counterpart : Schema}

theorem Alike.refl (distinct : scope.NamesDistinct) : scope.Alike scope := by
  refine ⟨.refl distinct.root, rfl, fun name => ?_⟩
  cases found : scope.bindings.lookup name with
  | none => exact .none
  | some type => exact .some (.refl (distinct.bindings _ (Keyed.mem_of_lookup found)))

theorem Alike.bindAll {added otherAdded : Bindings} (alike : scope.Alike other)
    (same : Keyed.Alike Schema.Same added otherAdded) :
    (scope.bindAll added).Alike (other.bindAll otherAdded) := by
  refine ⟨alike.root, alike.options, fun name => ?_⟩
  simp only [Scope.bindAll, List.lookup_append]
  exact or_rel (same.reverse.lookup name) (alike.bindings name)

theorem bind_eq_bindAll (name : String) : scope.bind name type = scope.bindAll [(name, type)] := rfl

theorem Alike.bind (name : String) (alike : scope.Alike other) (same : type.Same counterpart) :
    (scope.bind name type).Alike (other.bind name counterpart) := by
  rw [bind_eq_bindAll, bind_eq_bindAll]
  exact alike.bindAll ⟨.refl _, by simpa using same⟩

theorem select_same {path : Option String} (options : scope.options = other.options)
    (same : type.Same counterpart) (selected : scope.select type path = .ok result) :
    ∃ reached, other.select counterpart path = .ok reached ∧ result.Same reached := by
  cases path with
  | none =>
      cases selected
      exact ⟨counterpart, rfl, same⟩
  | some text =>
      obtain ⟨resolved, resolves, made⟩ := bind_eq_ok.mp selected
      cases made
      rw [options] at resolves
      obtain ⟨reached, others, equal⟩ := resolveText_same same (resolveChecked_eq_ok.mp resolves)
      refine ⟨reached.valueType, bind_eq_ok.mpr ⟨reached, ?_, rfl⟩, equal⟩
      exact resolveChecked_eq_ok.mpr others

theorem variableType_same {reference : List Char} (alike : scope.Alike other)
    (accepted : scope.variableType reference = .ok result) :
    ∃ reached, other.variableType reference = .ok reached ∧ result.Same reached := by
  unfold variableType at accepted ⊢
  generalize splitFirstDot reference = parts at accepted ⊢
  obtain ⟨name, path⟩ := parts
  simp only at accepted ⊢
  rcases rel_cases (alike.bindings name) with ⟨absent, missing⟩ | ⟨_, _, found, held, same⟩
  · rw [missing]
    rw [absent] at accepted
    simp only at accepted ⊢
    split at accepted
    · exact select_same alike.options alike.root accepted
    · exact select_same alike.options alike.root accepted
    · cases accepted
      exact ⟨_, rfl, .refl (.scalar _)⟩
    · cases accepted
      exact ⟨_, rfl, .refl (.scalar _)⟩
    · cases accepted
      exact ⟨_, rfl, .refl (.scalar _)⟩
    · contradiction
  · rw [held]
    rw [found] at accepted
    exact select_same alike.options same accepted

theorem textType_same {text : String} (alike : scope.Alike other)
    (accepted : scope.textType text = .ok result) :
    ∃ reached, other.textType text = .ok reached ∧ result.Same reached := by
  unfold textType at accepted ⊢
  split at accepted
  · exact variableType_same alike accepted
  · exact select_same alike.options alike.root accepted
  · cases accepted
    exact ⟨_, rfl, .refl (.scalar _)⟩

end Scope

section Arguments

variable {operator name : String} {required optional : List String}
  {entries others : List (String × Json)} {argument counterpart : Json}

theorem checkNamed_reorders (alike : Keyed.Alike Json.Reorders entries others)
    (accepted : checkNamed operator required optional entries = .ok ()) :
    checkNamed operator required optional others = .ok () := by
  obtain ⟨unwrapped, known, given⟩ := checkNamed_eq_ok.mp accepted
  have stillKnown := alike.forall_names (· ∈ required ++ optional) known
  refine checkNamed_eq_ok.mpr ⟨?_, stillKnown, fun key stated => ?_⟩
  · rw [← Json.extendedKind?_eq alike, unwrapped]
  · rw [← alike.has_eq]
    exact given key stated

theorem checkDateParts_reorders (alike : Keyed.Alike Json.Reorders entries others)
    (accepted : checkDateParts operator entries = .ok ()) :
    checkDateParts operator others = .ok () := by
  unfold checkDateParts at accepted ⊢
  rw [← alike.has_eq, ← alike.has_eq]
  split at accepted
  · exact checkNamed_reorders alike accepted
  · exact checkNamed_reorders alike accepted
  · contradiction

theorem bindingName_reorders (alike : Keyed.Alike Json.Reorders entries others)
    (accepted : bindingName operator entries = .ok name) :
    bindingName operator others = .ok name := by
  unfold bindingName at accepted ⊢
  rcases rel_cases (alike.lookup "as") with ⟨absent, missing⟩ | ⟨_, _, found, held, same⟩
  · rw [missing]
    rw [absent] at accepted
    exact accepted
  · rw [held]
    rw [found] at accepted
    cases same with
    | string text => exact accepted
    | _ => contradiction

namespace ExprArgs

theorem isWhole_eq (args : ExprArgs) (alike : argument.Reorders counterpart) :
    args.isWhole argument = args.isWhole counterpart := by
  cases alike with
  | object names values =>
      have alike : Keyed.Alike Json.Reorders _ _ := ⟨names, values⟩
      cases args with
      | dateOrNamed =>
          simp only [isWhole, Json.extendedKind?_eq alike, hasOperatorKey_eq alike]
      | _ => rfl
  | array => cases args <;> rfl
  | _ => rfl

theorem checkList_reorders {items permuted : List Json} (args : ExprArgs)
    (sameLength : items.length = permuted.length)
    (accepted : args.checkList operator items = .ok ()) :
    args.checkList operator permuted = .ok () := by
  cases args with
  | named => contradiction
  | stringOrNamed => contradiction
  | switch => contradiction
  | emptyObject => contradiction
  | literal => rfl
  | _ => simpa only [checkList, sameLength] using accepted

theorem checkObject_reorders (args : ExprArgs) (alike : Keyed.Alike Json.Reorders entries others)
    (accepted : args.checkObject operator entries = .ok ()) :
    args.checkObject operator others = .ok () := by
  cases args with
  | list => contradiction
  | emptyObject =>
      cases entries with
      | nil =>
          have none : others = [] := by simpa using alike.isEmpty_eq
          rw [none]
          rfl
      | cons => contradiction
  | dateFromParts => exact checkDateParts_reorders alike accepted
  | single => rfl
  | singleOrList => rfl
  | literal => rfl
  | _ => exact checkNamed_reorders alike accepted

end ExprArgs

structure ArgumentParts.Alike (parts others : ArgumentParts) : Prop where
  positional : List.Forall₂ Json.Reorders parts.positional others.positional
  named : Keyed.Alike Json.Reorders parts.named others.named
  conditions : List.Forall₂ Json.Reorders parts.conditions others.conditions

theorem ArgumentParts.Alike.exists_of_mem {parts others : ArgumentParts} {other : Json}
    (alike : parts.Alike others) (held : other ∈ others.all) :
    ∃ part ∈ parts.all, part.Reorders other := by
  unfold ArgumentParts.all at held ⊢
  simp only [List.mem_append] at held ⊢
  rcases held with (placed | named) | condition
  · obtain ⟨part, member, same⟩ := exists_of_mem_right alike.positional placed
    exact ⟨part, .inl (.inl member), same⟩
  · obtain ⟨entry, stated, rfl⟩ := List.mem_map.mp named
    obtain ⟨part, member, _, same⟩ := alike.named.exists_of_mem stated
    exact ⟨part.2, .inl (.inr (List.mem_map_of_mem member)), same⟩
  · obtain ⟨part, member, same⟩ := exists_of_mem_right alike.conditions condition
    exact ⟨part, .inr member, same⟩

theorem Json.under_reorders (key : String) (alike : Keyed.Alike Json.Reorders entries others) :
    (under key entries).Reorders (under key others) := by
  unfold under
  rcases rel_cases (alike.lookup key) with ⟨absent, missing⟩ | ⟨_, _, found, held, same⟩
  · rw [absent, missing]
    exact .null
  · rw [found, held]
    exact same

theorem IsBranch.reorder {branch other : Json} (shaped : IsBranch operator branch)
    (alike : branch.Reorders other) :
    IsBranch operator other ∧
      ∀ key, (Json.under key branch.entriesOf).Reorders (Json.under key other.entriesOf) := by
  obtain ⟨entries, rfl, fits⟩ := shaped
  obtain ⟨others, rfl, inside⟩ := alike.exists_object
  exact ⟨⟨others, rfl, checkNamed_reorders inside fits⟩, fun key => Json.under_reorders key inside⟩

theorem branches_forall₂ {branches permuted : List Json} (key : String)
    (alike : List.Forall₂ Json.Reorders branches permuted)
    (each : ∀ branch ∈ branches, IsBranch operator branch) :
    List.Forall₂ Json.Reorders (branches.map fun branch => .under key branch.entriesOf)
      (permuted.map fun branch => .under key branch.entriesOf) := by
  rw [List.forall₂_map_left_iff, List.forall₂_map_right_iff]
  refine forall₂_imp_of_mem alike fun branch member other same => ?_
  exact ((each branch member).reorder same).2 key

theorem ExprOperator.Divides.reorder {operator : ExprOperator} {parts : ArgumentParts}
    (divides : operator.Divides argument parts) (alike : argument.Reorders counterpart) :
    ∃ others, operator.Divides counterpart others ∧ parts.Alike others := by
  cases divides with
  | whole single =>
      rw [ExprArgs.isWhole_eq _ alike] at single
      exact ⟨_, .whole single, .cons alike .nil, .nil, .nil⟩
  | items fits =>
      obtain ⟨permuted, rfl, inside⟩ := alike.exists_array
      exact ⟨_, .items (ExprArgs.checkList_reorders _ inside.length_eq fits), inside, .nil, .nil⟩
  | nothing form fits =>
      obtain ⟨others, rfl, inside⟩ := alike.exists_object
      exact ⟨_, .nothing form (ExprArgs.checkObject_reorders _ inside fits), .nil, .nil, .nil⟩
  | @branches entries branches form fits stated some each =>
      obtain ⟨others, rfl, inside⟩ := alike.exists_object
      obtain ⟨_, held, same⟩ := inside.exists_of_lookup stated
      obtain ⟨permuted, rfl, listed⟩ := same.exists_array
      have filled : permuted ≠ [] := by
        intro none
        rw [none] at listed
        cases listed
        exact some rfl
      have shaped : ∀ branch ∈ permuted, IsBranch operator.name branch := by
        intro branch member
        obtain ⟨before, stated, same⟩ := exists_of_mem_right listed member
        exact ((each before stated).reorder same).1
      refine ⟨_, .branches form (ExprArgs.checkObject_reorders _ inside fits) held filled shaped,
        branches_forall₂ "then" listed each, ?_, branches_forall₂ "case" listed each⟩
      rcases rel_cases (inside.lookup "default") with ⟨absent, missing⟩ | ⟨_, _, found, held, same⟩
      · rw [absent, missing]
        exact .nil
      · rw [found, held]
        exact ⟨.refl _, by simpa using same⟩
  | named divided filled plain fits =>
      obtain ⟨others, rfl, inside⟩ := alike.exists_object
      rw [ExprArgs.isWhole_eq _ (Json.reorders_object_iff.mpr inside)] at divided
      exact ⟨_, .named divided filled plain (ExprArgs.checkObject_reorders _ inside fits), .nil,
        inside, .nil⟩

end Arguments

namespace Json

variable {scope other : Scope} {value counterpart : Json} {type result : Schema}

def TypedAs (scope : Scope) (value : Json) (type : Schema) : Prop :=
  HasType scope value (value.typeIn scope) ∧ type.Same (value.typeIn scope)

theorem HasType.typedAs (typed : HasType scope value result) (same : type.Same result) :
    TypedAs scope value type := by
  have made := typeIn_of_infer (infer_of_hasType typed)
  rw [TypedAs, made]
  exact ⟨typed, same⟩

theorem TypedAs.items {items permuted : List Json} {typeOf : Json → Schema}
    (below : List.Forall₂ (fun item held => TypedAs other held (typeOf item)) items permuted) :
    (∀ held ∈ permuted, HasType other held (held.typeIn other)) ∧
      List.Forall₂ Schema.Same (items.map typeOf) (permuted.map (typeIn other)) := by
  refine ⟨fun held member => ?_, ?_⟩
  · obtain ⟨item, _, typed⟩ := exists_of_mem_right below member
    exact typed.1
  · rw [List.forall₂_map_left_iff, List.forall₂_map_right_iff]
    exact below.imp fun _ _ typed => typed.2

theorem TypedAs.entries {entries others : List (String × Json)} {typeOf : Json → Schema}
    (below : Keyed.Alike (fun value held => TypedAs other held (typeOf value)) entries others) :
    (∀ held ∈ others, HasType other held.2 (held.2.typeIn other)) ∧
      Keyed.Alike Schema.Same (entries.map fun entry => (entry.1, typeOf entry.2))
        (others.map fun held => (held.1, held.2.typeIn other)) := by
  refine ⟨fun held member => ?_, below.map fun _ _ _ _ typed => typed.2⟩
  obtain ⟨entry, _, _, typed⟩ := below.exists_of_mem member
  exact typed.1

theorem HasType.reorder (typed : HasType scope value type) (alike : value.Reorders counterpart)
    (scopes : scope.Alike other) (keys : value.KeysDistinct) : TypedAs other counterpart type := by
  induction typed generalizing counterpart other with
  | null =>
      cases alike with
      | null => exact HasType.null.typedAs (.refl (.scalar _))
  | bool =>
      cases alike with
      | bool => exact HasType.bool.typedAs (.refl (.scalar _))
  | number =>
      cases alike with
      | number => exact HasType.number.typedAs (.refl (.scalar _))
  | text typed =>
      obtain rfl := alike.eq_string
      obtain ⟨reached, typed, same⟩ := Scope.textType_same scopes typed
      exact (HasType.text typed).typedAs same
  | @array scope items typeOf _ each =>
      obtain ⟨permuted, rfl, inside⟩ := alike.exists_array
      have distinct := keysDistinct_array_iff.mp keys
      have below :
          List.Forall₂ (fun item held => TypedAs other held (typeOf item)) items permuted :=
        forall₂_imp_of_mem inside fun item member held same =>
          each item member same scopes (distinct item member)
      obtain ⟨typed, same⟩ := TypedAs.items below
      exact (HasType.array typed).typedAs (Schema.unifyAll_same same).array
  | extended wrapper =>
      obtain ⟨others, rfl, inside⟩ := alike.exists_object
      rw [extendedKind?_eq inside] at wrapper
      exact (HasType.extended wrapper).typedAs (.refl (.scalar _))
  | @document scope entries typeOf unwrapped plain undotted _ each =>
      obtain ⟨others, rfl, inside⟩ := alike.exists_object
      obtain ⟨names, distinct⟩ := keysDistinct_object_iff.mp keys
      have below :
          Keyed.Alike (fun value held => TypedAs other held (typeOf value)) entries others :=
        inside.imp fun entry member _ _ same =>
          each entry member same scopes (distinct entry member)
      obtain ⟨typed, same⟩ := TypedAs.entries below
      rw [extendedKind?_eq inside] at unwrapped
      rw [hasOperatorKey_eq inside] at plain
      have clear := inside.forall_names ('.' ∉ ·.toList) undotted
      refine (HasType.document unwrapped plain clear typed).typedAs ?_
      exact closedObject_same same (by simpa [Keyed.names, Function.comp_def] using names)
  | literal =>
      obtain ⟨argument, rfl, inside⟩ := alike.exists_single
      exact HasType.literal.typedAs (inside.type_same (application_keysDistinct keys))
  | @applied scope name argument operator parts typeOf known ordinary divides _ each =>
      obtain ⟨argument, rfl, inside⟩ := alike.exists_single
      obtain ⟨others, divided, alike⟩ := divides.reorder inside
      have distinct := parts_keysDistinct divides (application_keysDistinct keys)
      have below : ∀ part ∈ parts.all, ∀ held, part.Reorders held →
          TypedAs other held (typeOf part) :=
        fun part member held same => each part member same scopes (distinct part member)
      obtain ⟨positional, named, _⟩ := ArgumentParts.forall_mem_all.mp below
      have typed : ∀ held ∈ others.all, HasType other held (held.typeIn other) := by
        intro held member
        obtain ⟨part, stated, same⟩ := alike.exists_of_mem member
        exact (below part stated held same).1
      have items := TypedAs.items (forall₂_imp_of_mem alike.positional positional)
      have entries := TypedAs.entries
        (alike.named.imp fun entry member held _ same => named entry member held.2 same)
      exact (HasType.applied known ordinary divided typed).typedAs
        (operator.resultType_same inside ⟨items.2, entries.2⟩)
  | map fits named _ _ outside inside =>
      obtain ⟨argument, rfl, below⟩ := alike.exists_single
      obtain ⟨others, rfl, same⟩ := below.exists_object
      have distinct := application_keysDistinct keys
      have input := outside (under_reorders "input" same) scopes (under_keysDistinct _ distinct)
      have body := inside (under_reorders "in" same) (scopes.bind _ (elementOf_same input.2))
        (under_keysDistinct _ distinct)
      exact (HasType.map (checkNamed_reorders same fits) (bindingName_reorders same named) input.1
        body.1).typedAs body.2.array
  | filter fits named _ _ _ outside limited inside =>
      obtain ⟨argument, rfl, below⟩ := alike.exists_single
      obtain ⟨others, rfl, same⟩ := below.exists_object
      have distinct := application_keysDistinct keys
      have input := outside (under_reorders "input" same) scopes (under_keysDistinct _ distinct)
      have limit := limited (under_reorders "limit" same) scopes (under_keysDistinct _ distinct)
      have condition := inside (under_reorders "cond" same) (scopes.bind _ (elementOf_same input.2))
        (under_keysDistinct _ distinct)
      exact (HasType.filter (checkNamed_reorders same fits) (bindingName_reorders same named)
        input.1 limit.1 condition.1).typedAs (arrayOrUnknown_same (.some input.2))
  | @reduce scope arguments input initial body fits _ _ _ outside started inside =>
      obtain ⟨argument, rfl, below⟩ := alike.exists_single
      obtain ⟨others, rfl, same⟩ := below.exists_object
      have distinct := application_keysDistinct keys
      have given := outside (under_reorders "input" same) scopes (under_keysDistinct _ distinct)
      have start :=
        started (under_reorders "initialValue" same) scopes (under_keysDistinct _ distinct)
      have bound : Keyed.Alike Schema.Same [("this", elementOf input), ("value", initial)]
          [("this", elementOf ((under "input" others).typeIn other)),
            ("value", (under "initialValue" others).typeIn other)] :=
        ⟨.refl _, by simpa using ⟨elementOf_same given.2, start.2⟩⟩
      have result := inside (under_reorders "in" same) (scopes.bindAll bound)
        (under_keysDistinct _ distinct)
      exact (HasType.reduce (checkNamed_reorders same fits) given.1 start.1 result.1).typedAs
        result.2
  | @lets scope arguments vars typeOf body fits stated names _ _ each inside =>
      obtain ⟨argument, rfl, below⟩ := alike.exists_single
      obtain ⟨others, rfl, same⟩ := below.exists_object
      have distinct := application_keysDistinct keys
      obtain ⟨_, held, bound⟩ := same.exists_of_lookup stated
      obtain ⟨permuted, rfl, listed⟩ := bound.exists_object
      obtain ⟨_, apart⟩ := keysDistinct_object_iff.mp (keysDistinct_of_lookup distinct stated)
      have below :
          Keyed.Alike (fun value held => TypedAs other held (typeOf value)) vars permuted :=
        listed.imp fun entry member _ _ same => each entry member same scopes (apart entry member)
      obtain ⟨typed, types⟩ := TypedAs.entries below
      have body := inside (under_reorders "in" same) (scopes.bindAll types)
        (under_keysDistinct _ distinct)
      have names := listed.forall_names (isVariableName · = true) names
      exact (HasType.lets (checkNamed_reorders same fits) held names typed body.1).typedAs body.2

/-- The order of keys decides neither whether an expression is accepted nor, up to the order of
fields, its type. -/
theorem Reorders.infer (alike : value.Reorders counterpart) (scopes : scope.Alike other)
    (keys : value.KeysDistinct) (accepted : value.infer scope = .ok type) :
    ∃ reached, counterpart.infer other = .ok reached ∧ type.Same reached := by
  obtain ⟨typed, same⟩ := (hasType_of_infer accepted).reorder alike scopes keys
  exact ⟨_, infer_of_hasType typed, same⟩

end Json

end DocTyping
