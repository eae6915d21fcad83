import DocTyping.Proofs.Checked
import DocTyping.Proofs.Expression.Rules
import DocTyping.Proofs.Keyed

namespace DocTyping.Json

/-!
# Inference by the typing rules

An expression has a type by the rules exactly if its inference succeeds with that
type.  Inference passes over its parts, which are smaller; so what it finds is
derived by the rules, by recursion on the size of the expression.
-/

/-- The type that an expression is inferred to have; opaque if it has none. -/
def typeIn (scope : Scope) (value : Json) : Schema := ((value.infer scope).toOption).getD .unknown

variable {scope : Scope} {value argument : Json} {type : Schema} {name key : String}
  {items : List Json} {entries : List (String × Json)} {operator : ExprOperator}

theorem typeIn_of_infer (accepted : value.infer scope = .ok type) : value.typeIn scope = type := by
  simp [typeIn, accepted, Except.toOption]

theorem infer_typeIn (accepted : ∃ type, value.infer scope = .ok type) :
    value.infer scope = .ok (value.typeIn scope) := by
  obtain ⟨type, accepted⟩ := accepted
  rw [typeIn_of_infer accepted, accepted]

theorem infer_eq_ok_typeIn :
    value.infer scope = .ok type ↔
      value.infer scope = .ok (value.typeIn scope) ∧ type = value.typeIn scope := by
  constructor
  · intro typed
    rw [typeIn_of_infer typed]
    exact ⟨typed, rfl⟩
  · rintro ⟨typed, rfl⟩
    exact typed

theorem infer_wrapped_eq_ok {α : Type} {result : α} (wrap : Schema → α) :
    (value.infer scope >>= fun type => pure (wrap type)) = .ok result ↔
      value.infer scope = .ok (value.typeIn scope) ∧ result = wrap (value.typeIn scope) := by
  simp only [bind_eq_ok, pure_eq_ok]
  constructor
  · rintro ⟨type, typed, rfl⟩
    rw [typeIn_of_infer typed]
    exact ⟨typed, rfl⟩
  · rintro ⟨typed, rfl⟩
    exact ⟨_, typed, rfl⟩

theorem inferItems_eq_ok {types : List Schema} :
    inferItems scope items = .ok types ↔
      (∀ item ∈ items, item.infer scope = .ok (item.typeIn scope)) ∧
        types = items.map (typeIn scope) :=
  traversal_eq_ok (infer scope) rfl (fun _ _ => rfl) fun _ _ => infer_eq_ok_typeIn

theorem inferNamed_eq_ok {types : List (String × Schema)} :
    inferNamed scope entries = .ok types ↔
      (∀ entry ∈ entries, entry.2.infer scope = .ok (entry.2.typeIn scope)) ∧
        types = entries.map fun entry => (entry.1, entry.2.typeIn scope) := by
  refine traversal_eq_ok (fun entry => entry.2.infer scope >>= fun type => pure (entry.1, type))
    rfl ?_ fun entry _ => infer_wrapped_eq_ok (Prod.mk entry.1)
  rintro ⟨name, value⟩ rest
  simp only [inferNamed]
  cases value.infer scope <;> rfl

theorem inferFields_eq_ok {fields : List (Field Schema)} :
    inferFields scope entries = .ok fields ↔
      (∀ entry ∈ entries, '.' ∉ entry.1.toList ∧
        entry.2.infer scope = .ok (entry.2.typeIn scope)) ∧
        fields = entries.map fun entry => ⟨entry.1, entry.2.typeIn scope, false, false⟩ := by
  refine traversal_eq_ok
    (fun entry =>
      if entry.1.toList.contains '.' then .error (.argument "expression" (.dottedFieldName entry.1))
      else entry.2.infer scope >>= fun type => pure ⟨entry.1, type, false, false⟩) rfl ?_ ?_
  · rintro ⟨name, value⟩ rest
    simp only [inferFields]
    split
    · rfl
    · cases value.infer scope <;> rfl
  · rintro ⟨name, value⟩ result
    by_cases dotted : '.' ∈ name.toList
    · simp [dotted]
    · simp only [List.contains_iff_mem, dotted, ↓reduceIte, infer_wrapped_eq_ok,
        not_false_eq_true, true_and]

theorem inferBindings_eq_ok {bindings : Bindings} :
    inferBindings scope name entries = .ok bindings ↔
      (∀ entry ∈ entries, isVariableName entry.1 = true ∧
        entry.2.infer scope = .ok (entry.2.typeIn scope)) ∧
        bindings = entries.map fun entry => (entry.1, entry.2.typeIn scope) := by
  refine traversal_eq_ok
    (fun entry =>
      if isVariableName entry.1 then entry.2.infer scope >>= fun type => pure (entry.1, type)
      else .error (.argument name (.variableName entry.1))) rfl ?_ ?_
  · rintro ⟨name, value⟩ rest
    simp only [inferBindings]
    split
    · cases value.infer scope <;> rfl
    · rfl
  · rintro ⟨name, value⟩ result
    by_cases valid : isVariableName name = true
    · simp only [valid, ↓reduceIte, infer_wrapped_eq_ok, true_and]
    · simp [valid]

theorem inferKey_eq : inferKey scope key entries = (under key entries).infer scope := by
  induction entries with
  | nil => rfl
  | cons entry rest ih =>
      obtain ⟨name, value⟩ := entry
      by_cases same : name = key
      · simp [inferKey, under, same]
      · have skipped : under key ((name, value) :: rest) = under key rest :=
          congrArg (Option.getD · Json.null) (Keyed.lookup_cons_of_ne same)
        rw [inferKey, if_neg same, ih, skipped]

theorem inferBranch_eq_ok {branch : Json} :
    branch.inferBranch scope name = .ok type ↔
      IsBranch name branch ∧
        (∃ condition, (under "case" branch.entriesOf).infer scope = .ok condition) ∧
          (under "then" branch.entriesOf).infer scope = .ok type := by
  cases branch with
  | object entries =>
      rw [inferBranch, unit_bind_eq_ok, bind_eq_ok, inferKey_eq]
      simp [IsBranch, entriesOf, inferKey_eq]
  | _ => simp [inferBranch, IsBranch, refuseUnnamed]

def BranchTyped (scope : Scope) (name : String) (branch : Json) : Prop :=
  IsBranch name branch ∧
    (under "case" branch.entriesOf).infer scope =
      .ok ((under "case" branch.entriesOf).typeIn scope) ∧
    (under "then" branch.entriesOf).infer scope =
      .ok ((under "then" branch.entriesOf).typeIn scope)

theorem inferBranches_eq_ok {types : List Schema} :
    inferBranches scope name items = .ok types ↔
      (∀ branch ∈ items, BranchTyped scope name branch) ∧
        types = items.map fun branch => (under "then" branch.entriesOf).typeIn scope := by
  refine traversal_eq_ok (inferBranch scope name) rfl (fun _ _ => rfl) fun branch type => ?_
  rw [inferBranch_eq_ok]
  constructor
  · rintro ⟨shaped, condition, typed⟩
    obtain ⟨typed, rfl⟩ := infer_eq_ok_typeIn.mp typed
    exact ⟨⟨shaped, infer_typeIn condition, typed⟩, rfl⟩
  · rintro ⟨⟨shaped, condition, typed⟩, rfl⟩
    exact ⟨shaped, ⟨_, condition⟩, typed⟩

theorem inferBranchesOf_eq_ok {types : List Schema} :
    inferBranchesOf scope name entries = .ok types ↔
      ∃ branches, entries.lookup "branches" = some (array branches) ∧ branches ≠ [] ∧
        inferBranches scope name branches = .ok types := by
  induction entries with
  | nil => simp [inferBranchesOf]
  | cons entry rest ih =>
      obtain ⟨name, value⟩ := entry
      by_cases same : name = "branches"
      · subst same
        simp only [inferBranchesOf, ↓reduceIte, List.lookup_cons_self, Option.some.injEq]
        unfold inferBranchList
        split
        · simp [inferBranches]
        · rename_i other
          simp only [reduceCtorEq, false_iff]
          rintro ⟨branches, rfl, filled, _⟩
          obtain ⟨branch, later, rfl⟩ := List.exists_cons_of_ne_nil filled
          exact other branch later rfl
      · have skipped : List.lookup "branches" ((name, value) :: rest) = rest.lookup "branches" :=
          Keyed.lookup_cons_of_ne same
        simp only [inferBranchesOf, same, ↓reduceIte, ih, skipped]

theorem inferBindingsOf_eq_ok {bindings : Bindings} :
    inferBindingsOf scope name entries = .ok bindings ↔
      ∃ vars, entries.lookup "vars" = some (object vars) ∧
        inferBindings scope name vars = .ok bindings := by
  induction entries with
  | nil => simp [inferBindingsOf]
  | cons entry rest ih =>
      obtain ⟨name, value⟩ := entry
      by_cases same : name = "vars"
      · subst same
        simp only [inferBindingsOf, ↓reduceIte, List.lookup_cons_self, Option.some.injEq]
        cases value with
        | object vars => simp [inferBindingObject]
        | _ => simp [inferBindingObject]
      · have skipped : List.lookup "vars" ((name, value) :: rest) = rest.lookup "vars" :=
          Keyed.lookup_cons_of_ne same
        simp only [inferBindingsOf, same, ↓reduceIte, ih, skipped]

theorem inferDefault_eq_ok {results : List Schema} {types : ArgumentTypes} :
    (if Keyed.has entries "default" then
        inferKey scope "default" entries >>= fun type => pure ⟨results, [("default", type)]⟩
      else (pure { positional := results } : Checked ArgumentTypes)) = .ok types ↔
      (∀ value ∈ (entries.lookup "default").toList,
        value.infer scope = .ok (value.typeIn scope)) ∧
        types = ⟨results, (entries.lookup "default").toList.map fun value =>
          ("default", value.typeIn scope)⟩ := by
  rw [Keyed.has_eq_isSome_lookup, inferKey_eq, under]
  cases entries.lookup "default" with
  | none =>
      refine pure_eq_ok.trans ?_
      simp [eq_comm]
  | some value =>
      simp only [Option.isSome_some, ↓reduceIte, Option.getD_some, Option.toList_some,
        List.mem_singleton, forall_eq, List.map_cons, List.map_nil]
      exact infer_wrapped_eq_ok fun type => ArgumentTypes.mk results [("default", type)]

def PartsTyped (scope : Scope) (parts : ArgumentParts) : Prop :=
  ∀ part ∈ parts.all, part.infer scope = .ok (part.typeIn scope)

theorem inferArguments_eq_ok {types : ArgumentTypes}
    (divided : operator.args.isWhole argument = false) :
    argument.inferArguments scope operator = .ok types ↔
      ∃ parts, operator.Divides argument parts ∧ PartsTyped scope parts ∧
        types = parts.types (typeIn scope) := by
  cases argument with
  | array items =>
      rw [inferArguments, unit_bind_eq_ok, bind_eq_ok]
      simp only [inferItems_eq_ok, pure_eq_ok, ExprOperator.divides_array_iff, PartsTyped,
        ArgumentParts.forall_mem_all, and_assoc]
      simp [ArgumentParts.types, @eq_comm _ types]
  | object entries =>
      rw [inferArguments, unit_bind_eq_ok]
      split
      · rename_i form
        simp only [ExprOperator.divides_nothing_iff form, pure_eq_ok, PartsTyped,
          ArgumentParts.forall_mem_all, and_assoc]
        simp [ArgumentParts.types, @eq_comm _ types]
      · rename_i form
        simp only [ExprOperator.divides_branches_iff form, bind_eq_ok, inferBranchesOf_eq_ok,
          inferBranches_eq_ok, inferDefault_eq_ok]
        constructor
        · rintro ⟨fits, _, ⟨branches, stated, some, each, rfl⟩, otherwise, rfl⟩
          refine ⟨_, ⟨fits, branches, stated, some, fun branch member => (each branch member).1,
            rfl⟩, ArgumentParts.forall_mem_all.mpr ⟨?_, ?_, ?_⟩, ?_⟩
          · exact List.forall_mem_map.mpr fun branch member => (each branch member).2.2
          · exact List.forall_mem_map.mpr otherwise
          · exact List.forall_mem_map.mpr fun branch member => (each branch member).2.1
          · simp [ArgumentParts.types]
        · rintro ⟨_, ⟨fits, branches, stated, some, shaped, rfl⟩, each, rfl⟩
          obtain ⟨results, otherwise, conditions⟩ := ArgumentParts.forall_mem_all.mp each
          refine ⟨fits, _, ⟨branches, stated, some, fun branch member => ?_, rfl⟩,
            List.forall_mem_map.mp otherwise, ?_⟩
          · exact ⟨shaped branch member, List.forall_mem_map.mp conditions branch member,
              List.forall_mem_map.mp results branch member⟩
          · simp [ArgumentParts.types]
      · rename_i filled plain
        simp only [ExprOperator.divides_named_iff divided filled plain, bind_eq_ok,
          inferNamed_eq_ok, pure_eq_ok, PartsTyped, ArgumentParts.forall_mem_all, and_assoc]
        simp [ArgumentParts.types, @eq_comm _ types]
  | _ =>
      simp only [inferArguments]
      constructor
      · intro accepted
        unfold ExprArgs.refuseOther at accepted
        split at accepted <;> contradiction
      · rintro ⟨parts, divides, _, _⟩
        cases divides with
        | whole single => simp [divided] at single
theorem inferOperator_ordinary_eq_ok (known : ExprOperator.named? name = some operator)
    (ordinary : name ∉ "$literal" :: bindingOperators) :
    inferOperator scope [(name, argument)] = .ok type ↔
      ∃ parts, operator.Divides argument parts ∧ PartsTyped scope parts ∧
        type = operator.resultType argument (parts.types (typeIn scope)) := by
  obtain ⟨notLiteral, notMap, notBody⟩ := ExprOperator.returns_of_ordinary known ordinary
  unfold inferOperator
  simp only [known]
  split
  · contradiction
  · contradiction
  · contradiction
  · contradiction
  · simp [bindingOperators] at ordinary
  · split
    · rename_i single
      rw [infer_wrapped_eq_ok]
      constructor
      · rintro ⟨typed, rfl⟩
        exact ⟨_, .whole single, by simpa [PartsTyped, ArgumentParts.all] using typed, rfl⟩
      · rintro ⟨parts, divides, each, rfl⟩
        obtain rfl := divides.eq_whole single
        exact ⟨each argument (by simp [ArgumentParts.all]), rfl⟩
    · rename_i divided
      simp only [bind_eq_ok, pure_eq_ok, inferArguments_eq_ok (by simpa using divided)]
      constructor
      · rintro ⟨_, ⟨parts, divides, each, rfl⟩, rfl⟩
        exact ⟨parts, divides, each, rfl⟩
      · rintro ⟨parts, divides, each, rfl⟩
        exact ⟨_, ⟨parts, divides, each, rfl⟩, rfl⟩

theorem sizeOf_item {item : Json} (member : item ∈ items) : sizeOf item < sizeOf (array items) := by
  have smaller := List.sizeOf_lt_of_mem member
  simp only [array.sizeOf_spec]
  omega

theorem sizeOf_entry {entry : String × Json} (member : entry ∈ entries) :
    sizeOf entry.2 < sizeOf (object entries) := by
  have smaller := List.sizeOf_lt_of_mem member
  obtain ⟨name, value⟩ := entry
  simp only [Prod.mk.sizeOf_spec] at smaller
  simp only [object.sizeOf_spec]
  omega

theorem sizeOf_lookup (found : entries.lookup key = some value) :
    sizeOf value < sizeOf (object entries) :=
  sizeOf_entry (Keyed.mem_of_lookup found)

theorem sizeOf_under : sizeOf (under key entries) < sizeOf (object entries) := by
  unfold under
  cases found : entries.lookup key with
  | some value => exact sizeOf_lookup found
  | none =>
      have filled : 0 < sizeOf entries := by
        cases entries with
        | nil => simp
        | cons =>
            simp only [List.cons.sizeOf_spec]
            omega
      simp only [Option.getD_none, null.sizeOf_spec, object.sizeOf_spec]
      omega

theorem sizeOf_under_entriesOf {branch : Json} (key : String) (shaped : IsBranch name branch) :
    sizeOf (under key branch.entriesOf) < sizeOf branch := by
  obtain ⟨entries, rfl, _⟩ := shaped
  exact sizeOf_under

theorem sizeOf_part {parts : ArgumentParts} (divides : operator.Divides argument parts) :
    ∀ part ∈ parts.all, sizeOf part ≤ sizeOf argument := by
  cases divides with
  | whole => simp [ArgumentParts.all]
  | items =>
      refine ArgumentParts.forall_mem_all.mpr ⟨fun part member => ?_, by simp, by simp⟩
      exact Nat.le_of_lt (sizeOf_item member)
  | nothing => simp [ArgumentParts.all]
  | named =>
      refine ArgumentParts.forall_mem_all.mpr ⟨by simp, fun entry member => ?_, by simp⟩
      exact Nat.le_of_lt (sizeOf_entry member)
  | @branches entries branches _ _ stated _ each =>
      have smaller : ∀ branch ∈ branches, ∀ key,
          sizeOf (under key branch.entriesOf) ≤ sizeOf (object entries) := by
        intro branch member key
        have inBranch := sizeOf_under_entriesOf key (each branch member)
        have inList := sizeOf_item member
        have inArgument := sizeOf_lookup stated
        omega
      refine ArgumentParts.forall_mem_all.mpr ⟨?_, ?_, ?_⟩
      · exact List.forall_mem_map.mpr fun branch member => smaller branch member "then"
      · refine List.forall_mem_map.mpr fun value found => ?_
        exact Nat.le_of_lt (sizeOf_lookup (Option.mem_toList.mp found))
      · exact List.forall_mem_map.mpr fun branch member => smaller branch member "case"

theorem sizeOf_argument : sizeOf argument < sizeOf (object [(name, argument)]) := by
  simp
  omega

/-- What strong induction on the size of an expression gives. -/
def PartsHaveType (value : Json) : Prop :=
  ∀ scope part type, sizeOf part < sizeOf value → part.infer scope = .ok type →
    HasType scope part type

theorem hasType_of_inferMap (parts : PartsHaveType argument)
    (accepted : argument.inferMap scope "$map" = .ok type) :
    HasType scope (object [("$map", argument)]) type := by
  cases argument with
  | object arguments =>
      rw [inferMap, unit_bind_eq_ok] at accepted
      simp only [bind_eq_ok, pure_eq_ok, inferKey_eq] at accepted
      obtain ⟨fits, input, typed, name, named, body, inside, rfl⟩ := accepted
      exact .map fits named (parts _ _ _ sizeOf_under typed) (parts _ _ _ sizeOf_under inside)
  | _ => contradiction

theorem hasType_of_inferFilter (parts : PartsHaveType argument)
    (accepted : argument.inferFilter scope "$filter" = .ok type) :
    HasType scope (object [("$filter", argument)]) type := by
  cases argument with
  | object arguments =>
      rw [inferFilter, unit_bind_eq_ok] at accepted
      simp only [bind_eq_ok, pure_eq_ok, inferKey_eq] at accepted
      obtain ⟨fits, input, typed, limit, limited, name, named, condition, inside, rfl⟩ := accepted
      exact .filter fits named (parts _ _ _ sizeOf_under typed) (parts _ _ _ sizeOf_under limited)
        (parts _ _ _ sizeOf_under inside)
  | _ => contradiction

theorem hasType_of_inferReduce (parts : PartsHaveType argument)
    (accepted : argument.inferReduce scope "$reduce" = .ok type) :
    HasType scope (object [("$reduce", argument)]) type := by
  cases argument with
  | object arguments =>
      rw [inferReduce, unit_bind_eq_ok] at accepted
      simp only [bind_eq_ok, inferKey_eq] at accepted
      obtain ⟨fits, input, typed, initial, started, inside⟩ := accepted
      exact .reduce fits (parts _ _ _ sizeOf_under typed) (parts _ _ _ sizeOf_under started)
        (parts _ _ _ sizeOf_under inside)
  | _ => contradiction

theorem hasType_of_inferLet (parts : PartsHaveType argument)
    (accepted : argument.inferLet scope "$let" = .ok type) :
    HasType scope (object [("$let", argument)]) type := by
  cases argument with
  | object arguments =>
      rw [inferLet, unit_bind_eq_ok] at accepted
      simp only [bind_eq_ok, inferKey_eq, inferBindingsOf_eq_ok, inferBindings_eq_ok] at accepted
      obtain ⟨fits, bindings, ⟨vars, stated, each, rfl⟩, inside⟩ := accepted
      refine .lets fits stated (fun entry member => (each entry member).1)
        (fun entry member => parts _ _ _ ?_ (each entry member).2) (parts _ _ _ sizeOf_under inside)
      have inVars := sizeOf_entry member
      have inArgument := sizeOf_lookup stated
      omega
  | _ => contradiction

theorem named?_of_inferOperator (accepted : inferOperator scope entries = .ok type) :
    ∃ name argument operator, entries = [(name, argument)] ∧
      ExprOperator.named? name = some operator := by
  unfold inferOperator at accepted
  split at accepted
  · split at accepted
    · contradiction
    · rename_i known
      exact ⟨_, _, _, rfl, known⟩
  · unfold refuseOperators at accepted
    split at accepted <;> contradiction

theorem hasType_of_inferOperator (parts : PartsHaveType (object entries))
    (accepted : inferOperator scope entries = .ok type) : HasType scope (object entries) type := by
  obtain ⟨name, argument, operator, rfl, known⟩ := named?_of_inferOperator accepted
  have inside : PartsHaveType argument := fun scope part type smaller =>
    parts scope part type (Nat.lt_trans smaller sizeOf_argument)
  by_cases special : name ∈ "$literal" :: bindingOperators
  · simp only [bindingOperators, List.mem_cons, List.not_mem_nil, or_false] at special
    rcases special with rfl | rfl | rfl | rfl | rfl
    · cases accepted
      exact .literal
    · exact hasType_of_inferMap inside accepted
    · exact hasType_of_inferFilter inside accepted
    · exact hasType_of_inferReduce inside accepted
    · exact hasType_of_inferLet inside accepted
  · obtain ⟨divided, divides, each, rfl⟩ := (inferOperator_ordinary_eq_ok known special).mp accepted
    refine .applied known special divides fun part member => parts _ _ _ ?_ (each part member)
    exact Nat.lt_of_le_of_lt (sizeOf_part divides part member) sizeOf_argument

theorem hasType_of_parts (parts : PartsHaveType value) (accepted : value.infer scope = .ok type) :
    HasType scope value type := by
  cases value with
  | null =>
      cases accepted
      exact .null
  | bool =>
      cases accepted
      exact .bool
  | number =>
      cases accepted
      exact .number
  | string text => exact .text accepted
  | array items =>
      simp only [infer, bind_eq_ok, inferItems_eq_ok, pure_eq_ok] at accepted
      obtain ⟨_, ⟨each, rfl⟩, rfl⟩ := accepted
      exact .array fun item member => parts _ _ _ (sizeOf_item member) (each item member)
  | object entries =>
      unfold infer at accepted
      split at accepted
      · rename_i wrapper
        cases accepted
        exact .extended wrapper
      · rename_i unwrapped
        split at accepted
        · exact hasType_of_inferOperator parts accepted
        · rename_i plain
          simp only [bind_eq_ok, inferFields_eq_ok, pure_eq_ok] at accepted
          obtain ⟨_, ⟨each, rfl⟩, rfl⟩ := accepted
          have document := HasType.document unwrapped (by simpa using plain)
            (fun entry member => (each entry member).1) fun entry member =>
              parts _ _ _ (sizeOf_entry member) (each entry member).2
          simpa [closedObject, Function.comp_def] using document

theorem hasType_of_infer {scope : Scope} {value : Json} {type : Schema}
    (accepted : value.infer scope = .ok type) : HasType scope value type :=
  hasType_of_parts (fun _ _ _ _ inside => hasType_of_infer inside) accepted
termination_by sizeOf value

theorem PartsTyped.of_each {parts : ArgumentParts} {typeOf : Json → Schema}
    (each : ∀ part ∈ parts.all, part.infer scope = .ok (typeOf part)) :
    PartsTyped scope parts ∧ parts.types (typeIn scope) = parts.types typeOf := by
  refine ⟨fun part member => infer_typeIn ⟨_, each part member⟩, ?_⟩
  obtain ⟨positional, named, _⟩ := ArgumentParts.forall_mem_all.mp each
  simp only [ArgumentParts.types, ArgumentTypes.mk.injEq]
  constructor
  · exact List.map_congr_left fun part member => typeIn_of_infer (positional part member)
  · refine List.map_congr_left fun entry member => ?_
    rw [typeIn_of_infer (named entry member)]

theorem inferBindings_of_each {typeOf : Json → Schema}
    (names : ∀ entry ∈ entries, isVariableName entry.1 = true)
    (each : ∀ entry ∈ entries, entry.2.infer scope = .ok (typeOf entry.2)) :
    inferBindings scope name entries = .ok (entries.map fun entry => (entry.1, typeOf entry.2)) :=
  inferBindings_eq_ok.mpr
    ⟨fun entry member => ⟨names entry member, infer_typeIn ⟨_, each entry member⟩⟩,
      List.map_congr_left fun entry member => by rw [typeIn_of_infer (each entry member)]⟩

theorem infer_operator (known : ExprOperator.named? name = some operator) :
    (object [(name, argument)]).infer scope = inferOperator scope [(name, argument)] := by
  have unwrapped : extendedKind? [(name, argument)] = none :=
    ExprOperator.wrapperKind?_of_named? known
  have operators : hasOperatorKey [(name, argument)] = true := by
    simp [hasOperatorKey, ExprOperator.startsWithDollar_of_named? known]
  simp only [infer, unwrapped, operators, ↓reduceIte]

theorem infer_of_hasType (typed : HasType scope value type) : value.infer scope = .ok type := by
  induction typed with
  | null => rfl
  | bool => rfl
  | number => rfl
  | text typed => exact typed
  | @array scope items typeOf _ each =>
      have types : inferItems scope items = .ok (items.map typeOf) :=
        inferItems_eq_ok.mpr ⟨fun item member => infer_typeIn ⟨_, each item member⟩,
          List.map_congr_left fun item member => (typeIn_of_infer (each item member)).symm⟩
      rw [infer, types]
      rfl
  | extended wrapper => simp only [infer, wrapper]
  | @document scope entries typeOf unwrapped plain undotted _ each =>
      have fields : inferFields scope entries =
          .ok (entries.map fun entry => ⟨entry.1, typeOf entry.2, false, false⟩) :=
        inferFields_eq_ok.mpr
          ⟨fun entry member => ⟨undotted entry member, infer_typeIn ⟨_, each entry member⟩⟩,
            List.map_congr_left fun entry member => by rw [typeIn_of_infer (each entry member)]⟩
      simp only [infer, unwrapped, plain, fields]
      simp only [closedObject, List.map_map]
      rfl
  | literal => exact infer_operator rfl
  | applied known ordinary divides _ each =>
      obtain ⟨typed, types⟩ := PartsTyped.of_each each
      rw [infer_operator known, ← types]
      exact (inferOperator_ordinary_eq_ok known ordinary).mpr ⟨_, divides, typed, rfl⟩
  | @map scope arguments name input body fits named _ _ typed inside =>
      have unfolded : (object [("$map", object arguments)]).infer scope =
          (object arguments).inferMap scope "$map" := infer_operator rfl
      rw [unfolded, inferMap, unit_bind_eq_ok]
      simp only [bind_eq_ok, pure_eq_ok, inferKey_eq]
      exact ⟨fits, _, typed, _, named, _, inside, rfl⟩
  | @filter scope arguments name input limit condition fits named _ _ _ typed limited inside =>
      have unfolded : (object [("$filter", object arguments)]).infer scope =
          (object arguments).inferFilter scope "$filter" := infer_operator rfl
      rw [unfolded, inferFilter, unit_bind_eq_ok]
      simp only [bind_eq_ok, pure_eq_ok, inferKey_eq]
      exact ⟨fits, _, typed, _, limited, _, named, _, inside, rfl⟩
  | @reduce scope arguments input initial body fits _ _ _ typed started inside =>
      have unfolded : (object [("$reduce", object arguments)]).infer scope =
          (object arguments).inferReduce scope "$reduce" := infer_operator rfl
      rw [unfolded, inferReduce, unit_bind_eq_ok]
      simp only [bind_eq_ok, inferKey_eq]
      exact ⟨fits, _, typed, _, started, inside⟩
  | @lets scope arguments vars typeOf body fits stated names _ _ each inside =>
      have unfolded : (object [("$let", object arguments)]).infer scope =
          (object arguments).inferLet scope "$let" := infer_operator rfl
      rw [unfolded, inferLet, unit_bind_eq_ok]
      simp only [bind_eq_ok, inferKey_eq, inferBindingsOf_eq_ok]
      exact ⟨fits, _, ⟨vars, stated, inferBindings_of_each names each⟩, inside⟩

/-- Inference follows the typing rules, and finds a type wherever they give one. -/
theorem infer_eq_ok_iff_hasType : value.infer scope = .ok type ↔ HasType scope value type :=
  ⟨hasType_of_infer, infer_of_hasType⟩

end DocTyping.Json
