import DocTyping.Proofs.Expression.NamesFit
import DocTyping.Proofs.Json.DistinctKeys
import DocTyping.Proofs.Schema.Loaded

namespace DocTyping

/-!
# Inferred types declare no name twice

If no object of an expression repeats a key, and neither the root nor a bound
variable declares a name twice, then no more does the type of the expression.
That no name occurs twice is one of the rules by which names may fit together.
-/

open Schema (namesFit_nodup_iff)

theorem Schema.child_namesDistinct {shape : Shape Schema} {key : String} {node : Schema}
    (distinct : (object shape).NamesDistinct) (found : shape.child? key = some node) :
    node.NamesDistinct := by
  rw [← namesFit_nodup_iff] at distinct ⊢
  exact distinct.child found

theorem Walks.namesDistinct {placeholders : Bool} {steps : List Segment} {here goal : Arrival}
    {count : Nat} (walks : Walks placeholders steps here count goal)
    (distinct : here.node.NamesDistinct) : goal.node.NamesDistinct := by
  rw [← namesFit_nodup_iff] at distinct ⊢
  exact walks.namesFit distinct

structure Scope.NamesDistinct (scope : Scope) : Prop where
  root : scope.root.NamesDistinct
  bindings : ∀ entry ∈ scope.bindings, entry.2.NamesDistinct

theorem Scope.NamesDistinct.namesFit {scope : Scope} (distinct : scope.NamesDistinct) :
    scope.NamesFit List.Nodup :=
  ⟨namesFit_nodup_iff.mpr distinct.root,
    fun entry member => namesFit_nodup_iff.mpr (distinct.bindings entry member)⟩

theorem closedObject_namesDistinct {fields : List (String × Schema)}
    (distinct : Keyed.names fields |>.Nodup) (each : ∀ field ∈ fields, field.2.NamesDistinct) :
    (closedObject fields).NamesDistinct := by
  simp only [← namesFit_nodup_iff] at each ⊢
  exact closedObject_namesFit distinct each

theorem element?_getD_namesDistinct {type default : Schema} (distinct : type.NamesDistinct)
    (fallback : default.NamesDistinct) : (type.element?.getD default).NamesDistinct := by
  rw [← namesFit_nodup_iff] at distinct fallback ⊢
  exact element?_getD_namesFit distinct fallback

theorem overlay_namesDistinct {below above : Shape Schema}
    (distinct : (Schema.object below).NamesDistinct)
    (aboveDistinct : (Schema.object above).NamesDistinct) :
    (Schema.object (overlay below above)).NamesDistinct := by
  rw [← namesFit_nodup_iff] at distinct aboveDistinct ⊢
  exact overlay_namesFit nodup_nameRule distinct aboveDistinct

theorem openObject_namesDistinct : openObject.NamesDistinct :=
  namesFit_nodup_iff.mp (openObject_namesFit nodup_nameRule)

theorem patternMatchType_namesDistinct : patternMatchType.NamesDistinct :=
  namesFit_nodup_iff.mp (patternMatchType_namesFit nodup_nameRule)

theorem ExprOperator.conversionType_namesDistinct {argument : Json} :
    (conversionType argument).NamesDistinct :=
  namesFit_nodup_iff.mp conversionType_namesFit

namespace Json

variable {entries : List (String × Json)} {key name : String} {value argument : Json}
  {scope : Scope} {type : Schema}

theorem itemTypes_eq_map (items : List Json) : itemTypes items = items.map Json.type := by
  induction items with
  | nil => rfl
  | cons item rest ih => rw [itemTypes, ih, List.map_cons]

theorem entryFields_eq_map (entries : List (String × Json)) :
    entryFields entries = entries.map fun entry => ⟨entry.1, entry.2.type, false, false⟩ := by
  induction entries with
  | nil => rfl
  | cons entry rest ih => rw [entryFields, ih, List.map_cons]

theorem type_array (items : List Json) :
    (array items).type = .array (Schema.unifyAll (items.map Json.type)) := by
  rw [Json.type, itemTypes_eq_map]

theorem type_object_of_plain (plain : extendedKind? entries = none) :
    (object entries).type =
      .object ⟨entries.map fun entry => ⟨entry.1, entry.2.type, false, false⟩, none⟩ := by
  rw [Json.type, plain, entryFields_eq_map]

theorem type_namesDistinct (keys : value.KeysDistinct) : value.type.NamesDistinct := by
  rw [← namesFit_nodup_iff]
  induction keys with
  | null => exact .scalar _
  | bool => exact .scalar _
  | number => exact .scalar _
  | string => exact .scalar _
  | array _ each =>
      rw [type_array]
      exact .array (Schema.unifyAll_namesFit nodup_nameRule (List.forall_mem_map.mpr each))
  | @object entries distinct _ each =>
      cases wrapped : extendedKind? entries with
      | some kind =>
          rw [Json.type, wrapped]
          exact .scalar _
      | none =>
          rw [type_object_of_plain wrapped]
          refine .object ?_ (List.forall_mem_map.mpr each) (by simp)
          simpa [Shape.names, Keyed.names, Function.comp_def] using distinct

theorem keysDistinct_passesDown : PassesDown [] KeysDistinct where
  null := .null
  item := keysDistinct_array_iff.mp
  entry keys entry member _ := (keysDistinct_object_iff.mp keys).2 entry member

theorem keysDistinct_of_lookup (keys : (object entries).KeysDistinct)
    (found : entries.lookup key = some value) : value.KeysDistinct :=
  keysDistinct_passesDown.lookup keys found List.not_mem_nil

theorem under_keysDistinct (key : String) (keys : (object entries).KeysDistinct) :
    (under key entries).KeysDistinct :=
  keysDistinct_passesDown.under keys List.not_mem_nil

theorem parts_keysDistinct {operator : ExprOperator} {parts : ArgumentParts}
    (divides : operator.Divides argument parts) (keys : argument.KeysDistinct) :
    ∀ part ∈ parts.all, part.KeysDistinct :=
  keysDistinct_passesDown.parts divides (List.nil_subset _) (fun _ _ => List.not_mem_nil) keys

theorem application_keysDistinct (keys : (object [(name, argument)]).KeysDistinct) :
    argument.KeysDistinct :=
  keysDistinct_passesDown.application keys List.not_mem_nil

/-- The keys of an object without repeated keys are names that occur once, and so are those of
literals. -/
theorem keysDistinct_nameSource : NameSource List.Nodup KeysDistinct where
  null := .null
  item := keysDistinct_array_iff.mp
  entry keys entry member _ := (keysDistinct_object_iff.mp keys).2 entry member
  keys keys _ _ := (keysDistinct_object_iff.mp keys).1
  literal keys := namesFit_nodup_iff.mpr (type_namesDistinct (application_keysDistinct keys))

theorem HasType.namesDistinct (typed : HasType scope value type) (distinct : scope.NamesDistinct)
    (keys : value.KeysDistinct) : type.NamesDistinct :=
  namesFit_nodup_iff.mp
    (typed.namesFit nodup_nameRule keysDistinct_nameSource distinct.namesFit keys)

end Json

end DocTyping
