import DocTyping.Proofs.Expression.References

namespace DocTyping

/-!
# Variables bound around a scope

A name refers to the innermost variable that has it, and to a system variable only where no
other has it.  So what refers to something still does where variables are bound around all
others, unless they hide a system variable; and their names cannot.
-/

namespace Scope

/-- A scope over the same documents that keeps all bindings and hides no system variable. -/
structure Extends (wider scope : Scope) : Prop where
  root : wider.root = scope.root
  options : wider.options = scope.options
  kept : ∀ name type, scope.bindings.lookup name = some type →
    wider.bindings.lookup name = some type
  unhidden : ∀ name ∈ systemVariables, scope.bindings.lookup name = none →
    wider.bindings.lookup name = none

def bindOutermost (scope : Scope) (name : String) (type : Schema) : Scope :=
  { scope with bindings := scope.bindings ++ [(name, type)] }

variable {scope wider : Scope} {type added : Schema} {name text : String}

theorem bindOutermost_extends (unreserved : name ∉ systemVariables) :
    (scope.bindOutermost name added).Extends scope where
  root := rfl
  options := rfl
  kept other type found := by
    change (scope.bindings ++ [(name, added)]).lookup other = some type
    rw [List.lookup_append, found, Option.some_or]
  unhidden other system unbound := by
    have different : name ≠ other := by
      intro same
      exact unreserved (same ▸ system)
    change (scope.bindings ++ [(name, added)]).lookup other = none
    rw [List.lookup_append, unbound, Option.none_or, Keyed.lookup_cons_of_ne different]
    rfl

namespace Extends

theorem bindAll (extension : wider.Extends scope) (bindings : Bindings) :
    (wider.bindAll bindings).Extends (scope.bindAll bindings) where
  root := extension.root
  options := extension.options
  kept name type found := by
    simp only [Scope.bindAll, List.lookup_append, Option.or_eq_some_iff] at found ⊢
    refine found.imp_right ?_
    intro outer
    exact ⟨outer.1, extension.kept name type outer.2⟩
  unhidden name system unbound := by
    simp only [Scope.bindAll, List.lookup_append, Option.or_eq_none_iff] at unbound ⊢
    exact ⟨unbound.1, extension.unhidden name system unbound.2⟩

theorem select_eq (extension : wider.Extends scope) (rest : Option String) :
    wider.select type rest = scope.select type rest := by
  unfold select
  rw [extension.options]

theorem variableType {reference : List Char} (extension : wider.Extends scope)
    (accepted : scope.variableType reference = .ok type) :
    wider.variableType reference = .ok type := by
  cases found : scope.bindings.lookup (splitFirstDot reference).1 with
  | some bound =>
      rw [variableType_bound found] at accepted
      rw [variableType_bound (extension.kept _ bound found), extension.select_eq]
      exact accepted
  | none =>
      have system : (splitFirstDot reference).1 ∈ systemVariables := by
        apply Decidable.byContradiction
        intro ordinary
        rw [variableType_undefined ordinary found] at accepted
        contradiction
      have unbound := extension.unhidden _ system found
      unfold Scope.variableType at accepted ⊢
      simp only [found] at accepted
      simpa only [unbound, extension.root, extension.select_eq] using accepted

theorem textType (extension : wider.Extends scope) (accepted : scope.textType text = .ok type) :
    wider.textType text = .ok type := by
  unfold Scope.textType at accepted ⊢
  split at accepted
  · exact extension.variableType accepted
  · rw [extension.root, extension.select_eq]
    exact accepted
  · exact accepted

theorem preserves : Preserves fun scope wider => wider.Extends scope where
  texts extension accepted := extension.textType accepted
  binds bindings extension := extension.bindAll bindings

end Extends

end Scope

namespace Json

variable {scope wider : Scope} {value : Json} {type added : Schema} {name : String}

/-- System variables are written in capitals, and a text that names a variable starts with a
lower-case letter. -/
theorem not_system_of_isVariableName (valid : isVariableName name = true) :
    name ∉ systemVariables := by
  have capitals : ∀ name ∈ systemVariables, isVariableName name = false := by decide
  intro system
  rw [capitals name system] at valid
  contradiction

/-- An expression that is accepted in a scope is accepted with the same type where a variable of any
type is bound around all others. -/
theorem infer_bindOutermost (valid : isVariableName name = true) (added : Schema)
    (accepted : value.infer scope = .ok type) :
    value.infer (scope.bindOutermost name added) = .ok type := by
  have extension : (scope.bindOutermost name added).Extends scope :=
    Scope.bindOutermost_extends (not_system_of_isVariableName valid)
  exact infer_of_hasType ((hasType_of_infer accepted).transfer Scope.Extends.preserves extension)

def invoiceScope : Scope :=
  .ofRoot (closedObject [("lines", .array (closedObject [("amount", .number)]))]) {}
    [("clerk", .string)]

def lineAmounts : Json :=
  object [("$map", object [("input", string "$lines"), ("as", string "line"),
    ("in", string "$$line.amount")])]

/-- The outer variable has the name of the inner one and another type. -/
theorem infer_bindOutermost_line :
    isVariableName "line" = true ∧ lineAmounts.infer invoiceScope = .ok (.array .number) ∧
      lineAmounts.infer (invoiceScope.bindOutermost "line" .string) = .ok (.array .number) := by
  have valid : isVariableName "line" = true := by decide
  have lines : HasType invoiceScope (string "$lines")
      (.array (closedObject [("amount", .number)])) := .text rfl
  have amount : HasType (invoiceScope.bind "line" (closedObject [("amount", .number)]))
      (string "$$line.amount") .number := .text rfl
  have accepted : lineAmounts.infer invoiceScope = .ok (.array .number) :=
    infer_of_hasType (.map rfl rfl lines amount)
  exact ⟨valid, accepted, infer_bindOutermost valid .string accepted⟩

end Json

end DocTyping
