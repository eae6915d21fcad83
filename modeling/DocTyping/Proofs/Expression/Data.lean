import DocTyping.Proofs.Expression.DistinctNames
import DocTyping.Proofs.Expression.Typing

namespace DocTyping.Json

/-!
# Data as expressions

A value that refers to nothing and applies no operator is typed as an expression item by
item and field by field, and so is a literal.  So it has the type of the literal in every
scope, quoted or not.
-/

/-- A value in which nothing is evaluated.  Extended literals may hold anything. -/
inductive IsData : Json → Prop
  | null : IsData null
  | bool {value : Bool} : IsData (bool value)
  | number {value : Number} : IsData (number value)
  | string {text : String} (plain : Text.startsWithDollar text = false) : IsData (string text)
  | array {items : List Json} (each : ∀ item ∈ items, IsData item) : IsData (array items)
  | extended {entries : List (String × Json)} {kind : ScalarKind}
      (wrapped : extendedKind? entries = some kind) : IsData (object entries)
  | object {entries : List (String × Json)}
      (keys : ∀ entry ∈ entries,
        Text.startsWithDollar entry.1 = false ∧ '.' ∉ entry.1.toList)
      (each : ∀ entry ∈ entries, IsData entry.2) : IsData (object entries)

variable {scope : Scope} {value payload : Json} {entries : List (String × Json)} {text key : String}
  {kind : ScalarKind}

theorem startsWithDollar_of_wrapperKind? (wrapped : wrapperKind? key payload = some kind) :
    Text.startsWithDollar key = true := by
  unfold wrapperKind? at wrapped
  split at wrapped
  all_goals first | rfl | contradiction

theorem extendedKind?_of_plain
    (plain : ∀ entry ∈ entries, Text.startsWithDollar entry.1 = false) :
    extendedKind? entries = none := by
  cases wrapped : extendedKind? entries with
  | none => rfl
  | some kind =>
      unfold extendedKind? at wrapped
      split at wrapped
      · rename_i key payload
        have dollar := startsWithDollar_of_wrapperKind? wrapped
        rw [plain (key, payload) List.mem_cons_self] at dollar
        contradiction
      · contradiction

theorem textType_of_plain (plain : Text.startsWithDollar text = false) :
    scope.textType text = .ok .string := by
  unfold Scope.textType
  split
  · rename_i stated
    simp [Text.startsWithDollar, stated] at plain
  · rename_i stated
    simp [Text.startsWithDollar, stated] at plain
  · rfl

theorem IsData.hasType (data : value.IsData) : HasType scope value value.type := by
  induction data with
  | null => exact .null
  | bool => exact .bool
  | number => exact .number
  | string plain => exact .text (textType_of_plain plain)
  | array _ each =>
      rw [type_array]
      exact .array each
  | extended wrapped =>
      rw [type, wrapped]
      exact .extended wrapped
  | @object entries keys _ each =>
      have unwrapped : extendedKind? entries = none :=
        extendedKind?_of_plain fun entry member => (keys entry member).1
      have plain : hasOperatorKey entries = false := by
        simp only [hasOperatorKey, List.any_eq_false]
        intro entry member
        simp [(keys entry member).1]
      have document : HasType scope (.object entries)
          (closedObject (entries.map fun entry => (entry.1, entry.2.type))) :=
        .document unwrapped plain (fun entry member => (keys entry member).2) each
      rw [type_object_of_plain unwrapped]
      simpa [closedObject, Function.comp_def] using document

/-- In every scope, data is accepted as an expression and has the type of the literal, and so it
does when it is quoted. -/
theorem infer_data (data : value.IsData) (scope : Scope) :
    value.infer scope = .ok value.type ∧
      (object [("$literal", value)]).infer scope = .ok value.type :=
  ⟨infer_of_hasType data.hasType, infer_of_hasType .literal⟩

/-- Two scans of a parcel.  The pattern in the second one is no reference. -/
def scans : Json :=
  array
    [object [("at", object [("$date", string "2024-05-01T08:00:00Z")]), ("place", string "")],
      object [("at", object [("$regularExpression", object [("a.b", string "$at")])]),
        ("tags", array [])]]

def scan : Schema :=
  .object ⟨[⟨"at", .unknown, false, false⟩, ⟨"place", .string, true, false⟩,
    ⟨"tags", .array .unknown, true, false⟩], none⟩

theorem scans_isData : scans.IsData := by
  have dated : extendedKind? [("$date", string "2024-05-01T08:00:00Z")] = some .date := by decide
  have matched : extendedKind? [("$regularExpression", object [("a.b", string "$at")])] =
      some .regex := rfl
  have date : (object [("$date", string "2024-05-01T08:00:00Z")]).IsData := .extended dated
  have pattern : (object [("$regularExpression", object [("a.b", string "$at")])]).IsData :=
    .extended matched
  have place : (string "").IsData := .string rfl
  have tags : (array []).IsData := .array (by simp)
  refine .array (List.forall_mem_cons.mpr ⟨.object (by decide) ?_, List.forall_mem_cons.mpr
    ⟨.object (by decide) ?_, by simp⟩⟩)
  · simp [date, place]
  · simp [pattern, tags]

theorem infer_data_scans :
    scans.IsData ∧ scans.infer (.ofRoot .unknown {} []) = .ok (.array scan) ∧
      (object [("$literal", scans)]).infer (.ofRoot .unknown {} []) = .ok (.array scan) := by
  have type : scans.type = .array scan := rfl
  obtain ⟨typed, quoted⟩ := infer_data scans_isData (.ofRoot .unknown {} [])
  rw [type] at typed quoted
  exact ⟨scans_isData, typed, quoted⟩

end DocTyping.Json
