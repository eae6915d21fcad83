import Mathlib.Data.List.TakeWhile
import DocTyping.Proofs.Expression.References
import DocTyping.Proofs.Path.Continuation

namespace DocTyping

/-!
# References through a bound variable

A path that goes on with names has the type that the names find in a variable bound to the first
part of it.  The two references are followed within the same depth, but the variable starts anew:
what it reaches may be too deep for the whole path, and never the other way round.
-/

variable {path rest text name : String} {names : List String} {type held : Schema}
  {scope : Scope}

/-- Of two ways to a type, the first leads nowhere else than the second, and where only the second
leads somewhere, the first is too deep. -/
structure Checked.Shallower (direct parts : Checked Schema) (maxDepth : Nat) : Prop where
  follows : ∀ type, direct = .ok type → parts = .ok type
  returns : ∀ type, parts = .ok type →
    direct = .ok type ∨
      ∃ error, direct = .error (.ofPath error) ∧ error.fault = .depthExceeded maxDepth

theorem Checked.Shallower.refused (first second : Refusal) (maxDepth : Nat) :
    Checked.Shallower (.error first) (.error second) maxDepth where
  follows _ accepted := by contradiction
  returns _ accepted := by contradiction

namespace Scope

theorem select_eq_ok :
    scope.select held (some text) = .ok type ↔
      ∃ path resolved, FieldPath.parse text = .ok path ∧
        path.resolve held scope.options = .ok resolved ∧ resolved.valueType = type := by
  simp only [select, bind_eq_ok, resolveChecked_eq_ok, resolveText, pure_eq_ok]
  constructor
  · intro selected
    obtain ⟨resolved, ⟨path, parsed, resolves⟩, same⟩ := selected
    exact ⟨path, resolved, parsed, resolves, same⟩
  · intro found
    obtain ⟨path, resolved, parsed, resolves, same⟩ := found
    exact ⟨resolved, ⟨path, parsed, resolves⟩, same⟩

theorem select_refused {steps : FieldPath} {error : PathError}
    (parsed : FieldPath.parse text = .ok steps)
    (refused : steps.resolve held scope.options = .error error) :
    scope.select held (some text) = .error (.ofPath error) := by
  simp [select, resolveChecked, resolveText, parsed, refused, Except.mapError]

def continued (path : Option String) (rest : String) : String :=
  path.elim rest fun text => text ++ "." ++ rest

theorem select_continued (parsed : FieldPath.parse rest = .ok (.ofNames names))
    (type : Schema) (path : Option String) :
    Checked.Shallower (scope.select type (some (continued path rest)))
      (scope.select type path >>= fun held => scope.select held (some rest))
      scope.options.maxDepth := by
  have filled := FieldPath.names_ne_nil_of_parse parsed
  cases path with
  | none => exact ⟨fun _ => id, fun _ => .inl⟩
  | some text =>
      constructor
      · intro goal accepted
        obtain ⟨whole, last, read, resolves, rfl⟩ := select_eq_ok.mp accepted
        obtain ⟨path, front, rfl⟩ := (FieldPath.parse_dotted parsed).mp read
        have started := FieldPath.segments_ne_nil_of_parse front
        obtain ⟨first, second, reached, onward, same⟩ :=
          FieldPath.resolve_parts started filled resolves
        have selected := select_eq_ok.mpr ⟨path, first, front, reached, rfl⟩
        rw [selected]
        exact select_eq_ok.mpr ⟨_, second, parsed, onward, same⟩
      · intro goal accepted
        obtain ⟨held, selected, onward⟩ := bind_eq_ok.mp accepted
        obtain ⟨path, first, front, reached, rfl⟩ := select_eq_ok.mp selected
        obtain ⟨_, second, read, resolves, rfl⟩ := select_eq_ok.mp onward
        obtain rfl := Except.ok.inj (parsed.symm.trans read)
        have whole : FieldPath.parse (text ++ "." ++ rest) = .ok (path.onward (names.map .name)) :=
          (FieldPath.parse_dotted parsed).mpr ⟨path, front, rfl⟩
        rcases FieldPath.resolve_of_parts filled reached resolves with ⟨last, found, same⟩ | deep
        · exact .inl (select_eq_ok.mpr ⟨_, last, whole, found, same⟩)
        · exact .inr ⟨_, select_refused whole deep, rfl⟩

/-! ### Texts that refer to variables -/

theorem splitFirstDot_variable (dotless : '.' ∉ name.toList) (path : Option String) :
    splitFirstDot (name.toList ++ path.elim [] fun path => '.' :: path.toList) = (name, path) := by
  have front : ∀ char ∈ name.toList, (char != '.') = true := by
    intro char member
    have different : char ≠ '.' := fun same => dotless (same ▸ member)
    simpa using different
  cases path with
  | none =>
      have kept := List.takeWhile_eq_self_iff.mpr front
      have dropped := List.dropWhile_eq_nil_iff.mpr front
      simp [splitFirstDot, kept, dropped]
  | some path =>
      have kept : (name.toList ++ '.' :: path.toList).takeWhile (· != '.') = name.toList := by
        simp [List.takeWhile_append_of_pos front]
      have dropped : (name.toList ++ '.' :: path.toList).dropWhile (· != '.') =
          '.' :: path.toList := by
        simp [List.dropWhile_append_of_pos front]
      simp [splitFirstDot, kept, dropped]

theorem textType_variableText (path : Option String) :
    scope.textType (variableText name path) =
      scope.variableType (name.toList ++ path.elim [] fun path => '.' :: path.toList) := by
  cases path with
  | none => simp [textType, variableText]
  | some path => simp [textType, variableText]

theorem textType_bound (dotless : '.' ∉ name.toList) (path : Option String)
    (bound : scope.bindings.lookup name = some held) :
    scope.textType (variableText name path) = scope.select held path := by
  have split := splitFirstDot_variable dotless path
  rw [textType_variableText, variableType_bound (by rw [split]; exact bound), split]

theorem textType_undefined (dotless : '.' ∉ name.toList) (path : Option String)
    (ordinary : name ∉ systemVariables) (unbound : scope.bindings.lookup name = none) :
    scope.textType (variableText name path) =
      .error (.argument ("$$" ++ name) .undefinedVariable) := by
  have split := splitFirstDot_variable dotless path
  rw [textType_variableText, variableType_undefined (by rw [split]; exact ordinary)
    (by rw [split]; exact unbound), split]

theorem textType_variable_continued (parsed : FieldPath.parse rest = .ok (.ofNames names))
    (dotless : '.' ∉ name.toList) (ordinary : name ∉ systemVariables) (path : Option String) :
    Checked.Shallower (scope.textType (variableText name (some (continued path rest))))
      (scope.textType (variableText name path) >>= fun held => scope.select held (some rest))
      scope.options.maxDepth := by
  cases bound : scope.bindings.lookup name with
  | some held =>
      rw [textType_bound dotless _ bound, textType_bound dotless _ bound]
      exact select_continued parsed held path
  | none =>
      rw [textType_undefined dotless _ ordinary bound, textType_undefined dotless _ ordinary bound]
      exact .refused _ _ _

theorem textType_field (plain : Text.startsWithDollar path = false) :
    scope.textType ("$" ++ path) = scope.select scope.root (some path) := by
  have chars : ("$" ++ path).toList = '$' :: path.toList := by simp
  unfold textType
  rw [chars]
  split
  · rename_i reference dollars
    have dollar := (List.cons.inj dollars).2
    simp [Text.startsWithDollar, dollar] at plain
  · rename_i written
    obtain rfl := (List.cons.inj written).2
    rw [String.ofList_toList]
  · rename_i other
    exact absurd rfl (other path.toList)

theorem not_system_of_spells {segment : Segment} (spells : Segment.Spells ("$" ++ name) segment) :
    name ∉ systemVariables := by
  have refused : ∀ name ∈ systemVariables, (Segment.parse ("$" ++ name)).isOk = false := by decide
  intro system
  have failed := refused name system
  rw [Segment.parse_of_spells spells] at failed
  contradiction

theorem splitDots_of_variableText {tail : Option String} (dotless : '.' ∉ name.toList)
    (same : "$" ++ path = variableText name tail) :
    ∃ others, Text.splitDots path = ("$" ++ name) :: others := by
  have first : Text.splitDots ("$" ++ name) = ["$" ++ name] :=
    Text.splitDots_of_dotless (by simpa using dotless)
  have chars := congrArg String.toList same
  cases tail with
  | none =>
      have whole : path = "$" ++ name :=
        String.toList_injective (by simpa [variableText] using chars)
      exact ⟨[], whole ▸ first⟩
  | some text =>
      have whole : path = "$" ++ name ++ "." ++ text :=
        String.toList_injective (by simpa [variableText] using chars)
      have parts := Text.splitDots_dotted ("$" ++ name) text
      rw [first, ← whole] at parts
      exact ⟨Text.splitDots text, parts⟩

/-- A path that starts with a placeholder is read as a variable that no scope binds of itself. -/
theorem exists_variableText {steps : FieldPath} (dollar : Text.startsWithDollar path = true)
    (read : FieldPath.parse path = .ok steps) :
    ∃ name tail, '.' ∉ name.toList ∧ name ∉ systemVariables ∧
      "$" ++ path = variableText name tail := by
  obtain ⟨reference, written⟩ : ∃ reference, path.toList = '$' :: reference := by
    simpa [Text.startsWithDollar, List.head?_eq_some_iff] using dollar
  have joined := splitFirstDot_joined reference
  have dotless := splitFirstDot_dotless reference
  generalize splitFirstDot reference = parts at joined dotless
  obtain ⟨name, tail⟩ := parts
  have same : "$" ++ path = variableText name tail := by
    rw [joined]
    apply String.toList_injective
    simp [written]
  obtain ⟨others, split⟩ := splitDots_of_variableText dotless same
  have spells := FieldPath.parse_eq_ok_iff.mp read
  rw [split] at spells
  obtain ⟨segment, _, head, _⟩ := List.forall₂_cons_left_iff.mp spells
  exact ⟨name, tail, dotless, not_system_of_spells head, same⟩

theorem variableText_dotted (name rest : String) (tail : Option String) :
    variableText name tail ++ "." ++ rest = variableText name (some (continued tail rest)) := by
  cases tail with
  | none => rfl
  | some text => simp only [variableText, continued, Option.elim_some, String.append_assoc]

/-- A reference to a field path that goes on with names, beside the names behind what the path
refers to. -/
theorem textType_dotted
    (plain : (∃ steps, FieldPath.parse path = .ok steps) ∨ Text.startsWithDollar path = false)
    (parsed : FieldPath.parse rest = .ok (.ofNames names)) :
    Checked.Shallower (scope.textType ("$" ++ path ++ "." ++ rest))
      (scope.textType ("$" ++ path) >>= fun held => scope.select held (some rest))
      scope.options.maxDepth := by
  cases dollar : Text.startsWithDollar path with
  | false =>
      have onward : Text.startsWithDollar (path ++ "." ++ rest) = false := by
        cases chars : path.toList with
        | nil => simp [Text.startsWithDollar, chars]
        | cons first others => simpa [Text.startsWithDollar, chars] using dollar
      have whole : "$" ++ path ++ "." ++ rest = "$" ++ (path ++ "." ++ rest) := by
        simp only [String.append_assoc]
      rw [whole, textType_field onward, textType_field dollar]
      exact select_continued parsed scope.root (some path)
  | true =>
      rw [dollar] at plain
      obtain ⟨steps, read⟩ := plain.resolve_right (by decide)
      obtain ⟨name, tail, dotless, ordinary, same⟩ := exists_variableText dollar read
      rw [same, variableText_dotted]
      exact textType_variable_continued parsed dotless ordinary tail

theorem dotless_of_isVariableName (valid : isVariableName name = true) : '.' ∉ name.toList := by
  unfold isVariableName at valid
  cases chars : name.toList with
  | nil => simp
  | cons first rest =>
      rw [chars] at valid
      obtain ⟨lower, others⟩ := Bool.and_eq_true_iff.mp valid
      intro member
      rcases List.mem_cons.mp member with rfl | later
      · contradiction
      · have dot := List.all_eq_true.mp others '.' later
        contradiction

end Scope

namespace Json

/-- A field path that is bound to a variable, and a path behind the variable. -/
def throughVariable (name path rest : String) : Json :=
  object [("$let", object [("vars", object [(name, string ("$" ++ path))]),
    ("in", string ("$$" ++ name ++ "." ++ rest))])]

theorem infer_throughVariable (valid : isVariableName name = true) :
    (throughVariable name path rest).infer scope =
      scope.textType ("$" ++ path) >>= fun held => scope.select held (some rest) := by
  have operator : (throughVariable name path rest).infer scope =
      (object [("vars", object [(name, string ("$" ++ path))]),
        ("in", string ("$$" ++ name ++ "." ++ rest))]).inferLet scope "$let" := infer_operator rfl
  have fits : checkNamed "$let" ["vars", "in"] []
      [("vars", object [(name, string ("$" ++ path))]),
        ("in", string ("$$" ++ name ++ "." ++ rest))] = .ok () := rfl
  rw [operator, inferLet, fits, ok_bind]
  simp only [inferBindingsOf, inferBindingObject, inferBindings, valid, infer, ↓reduceIte]
  cases scope.textType ("$" ++ path) with
  | error refusal => rfl
  | ok held =>
      have dotless := Scope.dotless_of_isVariableName valid
      exact Scope.textType_bound dotless (some rest) List.lookup_cons_self

/-- Names behind a field path have the type that they have behind a variable bound to the path.
Where the whole path has no type, the variable leads on only past the depth of the scope. -/
theorem infer_dotted (scope : Scope)
    (plain : (∃ steps, FieldPath.parse path = .ok steps) ∨ Text.startsWithDollar path = false)
    (parsed : FieldPath.parse rest = .ok (.ofNames names)) (valid : isVariableName name = true) :
    (∀ type, (string ("$" ++ path ++ "." ++ rest)).infer scope = .ok type →
      (throughVariable name path rest).infer scope = .ok type) ∧
    ∀ type, (throughVariable name path rest).infer scope = .ok type →
      (string ("$" ++ path ++ "." ++ rest)).infer scope = .ok type ∨
        ∃ error, (string ("$" ++ path ++ "." ++ rest)).infer scope = .error (.ofPath error) ∧
          error.fault = .depthExceeded scope.options.maxDepth := by
  rw [infer_throughVariable valid, infer]
  obtain ⟨follows, returns⟩ := Scope.textType_dotted plain parsed
  exact ⟨follows, returns⟩

def shelfScope (maxDepth : Nat) : Scope where
  root := closedObject
    [("rows", .array (.array (closedObject [("slot", closedObject [("code", .string)])])))]
  options := { checkInArray := true, maxDepth }
  bindings := []

/-- The codes are found across two levels of arrays, which the whole path takes five moves for and
the part of it that is bound takes four. -/
theorem infer_dotted_slot :
    (∃ steps, FieldPath.parse "rows.slot" = .ok steps) ∧
      FieldPath.parse "code" = .ok (.ofNames ["code"]) ∧ isVariableName "slot" = true ∧
      (string "$rows.slot.code").infer (shelfScope 5) = .ok (.array .string) ∧
      (throughVariable "slot" "rows.slot" "code").infer (shelfScope 5) = .ok (.array .string) ∧
      (throughVariable "slot" "rows.slot" "code").infer (shelfScope 4) = .ok (.array .string) ∧
      ∃ error, (string "$rows.slot.code").infer (shelfScope 4) = .error (.ofPath error) ∧
        error.fault = .depthExceeded 4 := by
  have read : ∃ steps, FieldPath.parse "rows.slot" = .ok steps :=
    ⟨⟨[.name "rows", .name "slot"]⟩, rfl⟩
  have parsed : FieldPath.parse "code" = .ok (.ofNames ["code"]) := rfl
  have valid : isVariableName "slot" = true := by decide
  have whole : "$" ++ "rows.slot" ++ "." ++ "code" = "$rows.slot.code" := by decide
  have direct : (string "$rows.slot.code").infer (shelfScope 5) = .ok (.array .string) := rfl
  have missed : ((string "$rows.slot.code").infer (shelfScope 4)).isOk = false := rfl
  have bound : (throughVariable "slot" "rows.slot" "code").infer (shelfScope 4) =
      .ok (.array .string) := by
    rw [infer_throughVariable valid]
    rfl
  have follows := (infer_dotted (shelfScope 5) (.inl read) parsed valid).1
  have returns := (infer_dotted (shelfScope 4) (.inl read) parsed valid).2
  rw [whole] at follows returns
  have refused : (string "$rows.slot.code").infer (shelfScope 4) ≠ .ok (.array .string) := by
    intro accepted
    rw [accepted] at missed
    contradiction
  exact ⟨read, parsed, valid, direct, follows _ direct, bound,
    (returns _ bound).resolve_left refused⟩

end Json

end DocTyping
