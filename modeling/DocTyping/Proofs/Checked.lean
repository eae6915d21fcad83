import DocTyping.Expression.Arguments
import Mathlib.Data.List.Forall2

namespace DocTyping

/-!
# Successful computations

What a computation that may fail has done once its result is known.
-/

variable {ε δ α β : Type}

@[simp] theorem ok_bind (value : α) (next : α → Except ε β) :
    (Except.ok value >>= next) = next value := rfl

@[simp] theorem error_bind (cause : ε) (next : α → Except ε β) :
    (Except.error cause >>= next) = .error cause := rfl

theorem bind_eq_ok {first : Except ε α} {next : α → Except ε β} {result : β} :
    (first >>= next) = .ok result ↔ ∃ value, first = .ok value ∧ next value = .ok result := by
  cases first with
  | error cause => simp
  | ok value => simp

theorem unit_bind_eq_ok {first : Except ε Unit} {next : Unit → Except ε β} {result : β} :
    (first >>= next) = .ok result ↔ first = .ok () ∧ next () = .ok result := by
  cases first with
  | error cause => simp
  | ok value => simp

theorem bind_eq_error {first : Except ε α} {next : α → Except ε β} {cause : ε} :
    (first >>= next) = .error cause ↔
      first = .error cause ∨ ∃ value, first = .ok value ∧ next value = .error cause := by
  cases first with
  | error other => simp
  | ok value => simp

theorem pure_eq_ok {value result : α} :
    (pure value : Except ε α) = .ok result ↔ value = result := by
  simp [pure, Except.pure]

/-- A computation that goes through a list succeeds where each of its steps does. -/
theorem traversal_eq_ok {traverse : List α → Except ε (List β)} {fits : α → Prop} {value : α → β}
    {items : List α} {results : List β} (step : α → Except ε β) (nil : traverse [] = .ok [])
    (cons : ∀ item rest, traverse (item :: rest) =
      step item >>= fun first => traverse rest >>= fun later => pure (first :: later))
    (steps : ∀ item result, step item = .ok result ↔ fits item ∧ result = value item) :
    traverse items = .ok results ↔ (∀ item ∈ items, fits item) ∧ results = items.map value := by
  induction items generalizing results with
  | nil => simp [nil, eq_comm]
  | cons item rest ih =>
      simp only [cons, bind_eq_ok, pure_eq_ok, steps, ih, List.forall_mem_cons, List.map_cons]
      constructor
      · rintro ⟨_, ⟨head, rfl⟩, _, ⟨later, rfl⟩, rfl⟩
        exact ⟨⟨head, later⟩, rfl⟩
      · rintro ⟨⟨head, later⟩, rfl⟩
        exact ⟨_, ⟨head, rfl⟩, _, ⟨later, rfl⟩, rfl⟩

theorem exists_forall₂_iff {related : α → β → Prop} {items : List α} :
    (∃ results, List.Forall₂ related items results) ↔
      ∀ item ∈ items, ∃ result, related item result := by
  induction items with
  | nil => exact iff_of_true ⟨[], .nil⟩ (by simp)
  | cons item rest ih =>
      rw [List.forall_mem_cons, ← ih]
      constructor
      · intro paired
        obtain ⟨_, paired⟩ := paired
        obtain ⟨head, later, first, tail, rfl⟩ := List.forall₂_cons_left_iff.mp paired
        exact ⟨⟨head, first⟩, later, tail⟩
      · intro both
        obtain ⟨⟨head, first⟩, later, tail⟩ := both
        exact ⟨head :: later, .cons first tail⟩

theorem mapError_eq_ok {change : ε → δ} {checked : Except ε α} {result : α} :
    checked.mapError change = .ok result ↔ checked = .ok result := by
  cases checked with
  | error cause =>
      constructor
      · intro failed
        contradiction
      · intro failed
        contradiction
  | ok value =>
      constructor
      · intro reached
        cases reached
        rfl
      · intro reached
        cases reached
        rfl

theorem mapError_eq_error {change : ε → δ} {checked : Except ε α} {cause : δ} :
    checked.mapError change = .error cause ↔
      ∃ origin, checked = .error origin ∧ change origin = cause := by
  cases checked with
  | error origin =>
      change Except.error (change origin) = .error cause ↔ _
      simp
  | ok value =>
      change Except.ok value = .error cause ↔ _
      simp

theorem within_eq_ok {path : String} {checked : Checked α} {result : α} :
    checked.within path = .ok result ↔ checked = .ok result :=
  mapError_eq_ok

theorem resolveChecked_eq_ok {root : Schema} {path : String} {options : ResolveOptions}
    {resolved : Resolved} :
    resolveChecked root path options = .ok resolved ↔
      resolveText root path options = .ok resolved :=
  mapError_eq_ok

theorem isOk_iff_exists {checked : Except ε α} :
    checked.isOk = true ↔ ∃ value, checked = .ok value := by
  cases checked with
  | error cause => simp [Except.isOk, Except.toBool]
  | ok value => simp [Except.isOk, Except.toBool]

theorem toOption_eq_some_iff {checked : Except ε α} {value : α} :
    checked.toOption = some value ↔ checked = .ok value := by
  cases checked with
  | error cause => simp [Except.toOption]
  | ok held => simp [Except.toOption]

theorem eq_ok_iff_isOk {checked : Except ε Unit} : checked = .ok () ↔ checked.isOk = true := by
  cases checked with
  | error cause => simp [Except.isOk, Except.toBool]
  | ok value => simp [Except.isOk, Except.toBool]

theorem demand_eq_ok {condition : Bool} {operator : String} {flaw : ArgumentFlaw} {result : Unit} :
    demand condition operator flaw = .ok result ↔ condition = true := by
  cases condition with
  | false => simp [demand]
  | true => simp [demand]

theorem checkKnown_eq_ok {operator : String} {entries : List (String × Json)}
    {allowed : List String} {result : Unit} :
    checkKnown operator entries allowed = .ok result ↔ ∀ entry ∈ entries, entry.1 ∈ allowed := by
  unfold checkKnown
  split
  · rename_i found
    have unknown := List.find?_some found
    have member := List.mem_of_find?_eq_some found
    constructor
    · intro accepted
      contradiction
    · intro known
      simp [known _ member] at unknown
  · rename_i absent
    have known := List.find?_eq_none.mp absent
    simp only [true_iff]
    intro entry member
    simpa using known entry member

theorem checkRequired_eq_ok {operator : String} {entries : List (String × Json)}
    {required : List String} {result : Unit} :
    checkRequired operator entries required = .ok result ↔
      ∀ key ∈ required, Keyed.has entries key = true := by
  unfold checkRequired
  split
  · rename_i key found
    have missing := List.find?_some found
    have member := List.mem_of_find?_eq_some found
    constructor
    · intro accepted
      contradiction
    · intro given
      simp [given key member] at missing
  · rename_i absent
    have given := List.find?_eq_none.mp absent
    simp only [true_iff]
    intro key member
    simpa using given key member

theorem checkNamed_eq_ok {operator : String} {required optional : List String}
    {entries : List (String × Json)} {result : Unit} :
    checkNamed operator required optional entries = .ok result ↔
      Json.extendedKind? entries = none ∧ (∀ entry ∈ entries, entry.1 ∈ required ++ optional) ∧
        ∀ key ∈ required, Keyed.has entries key = true := by
  unfold checkNamed
  cases wrapper : Json.extendedKind? entries with
  | some kind => simp
  | none => simp [bind_eq_ok, checkKnown_eq_ok, checkRequired_eq_ok]

end DocTyping
