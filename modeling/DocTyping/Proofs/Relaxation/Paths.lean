import DocTyping.Pipeline.Unwinding
import DocTyping.Proofs.Checked
import DocTyping.Proofs.Path.Budget

namespace DocTyping

/-!
# Paths within a larger depth

A walk that a depth does not cut short ends the same way within a larger depth,
whether it arrives or not.  So a path that resolves keeps its place, and one that
is refused for an undeclared field stays refused for it.
-/

variable {ε δ α β : Type}

/-- Wherever a computation succeeds, another one does with the same result. -/
def Grants (first second : Except ε α) : Prop := ∀ value, first = .ok value → second = .ok value

namespace Grants

theorem refl (checked : Except ε α) : Grants checked checked := fun _ accepted => accepted

theorem bind {first second : Except ε α} {next after : α → Except ε β} (head : Grants first second)
    (tail : ∀ value, Grants (next value) (after value)) :
    Grants (first >>= next) (second >>= after) := by
  intro result accepted
  obtain ⟨value, reached, accepted⟩ := bind_eq_ok.mp accepted
  exact bind_eq_ok.mpr ⟨value, head value reached, tail value result accepted⟩

theorem head {first second : Except ε α} {next : α → Except ε β} (inner : Grants first second) :
    Grants (first >>= next) (second >>= next) := inner.bind fun _ => refl _

theorem tail {first : Except ε α} {next after : α → Except ε β}
    (each : ∀ value, Grants (next value) (after value)) :
    Grants (first >>= next) (first >>= after) := (refl first).bind each

theorem mapError {first second : Except ε α} {change : ε → δ} {other : ε → δ}
    (inner : Grants first second) : Grants (first.mapError change) (second.mapError other) := by
  intro value accepted
  exact mapError_eq_ok.mpr (inner value (mapError_eq_ok.mp accepted))

theorem within {path : String} {first second : Checked α} (inner : Grants first second) :
    Grants (first.within path) (second.within path) := inner.mapError

theorem ite {first second other another : Except ε α} {condition : Prop} [Decidable condition]
    (positive : condition → Grants first second) (negative : ¬ condition → Grants other another) :
    Grants (if condition then first else other) (if condition then second else another) := by
  split
  · rename_i holds
    exact positive holds
  · rename_i fails
    exact negative fails

end Grants

variable {options deeper : ResolveOptions} {budget larger : Nat} {steps : List Segment}
  {here : Arrival} {root : Schema} {path : String}

/-- Options that allow more moves and otherwise the same. -/
structure ResolveOptions.Deepens (options deeper : ResolveOptions) : Prop where
  depth : options.maxDepth ≤ deeper.maxDepth
  placeholders : deeper.allowPlaceholders = options.allowPlaceholders
  inArray : deeper.checkInArray = options.checkInArray

theorem walk_deeper (placeholders : deeper.allowPlaceholders = options.allowPlaceholders)
    (more : budget ≤ larger)
    (within : ∀ depth, walk options budget steps here ≠ .error (.depthExceeded depth)) :
    walk deeper larger steps here = walk options budget steps here := by
  obtain ⟨threshold, outcome, needs⟩ := exists_needs options.allowPlaceholders steps here
  have covered : threshold ≤ budget := by
    by_contra less
    exact within _ (needs.short options budget rfl (by omega))
  rw [needs.enough options budget rfl covered,
    needs.enough deeper larger placeholders (Nat.le_trans covered more)]

/-- Why a path does not resolve, the depth apart. -/
def PathError.cutShort (error : PathError) : Prop := ∃ depth, error.fault = .depthExceeded depth

theorem FieldPath.resolve_deeper {path : FieldPath} (deepens : options.Deepens deeper)
    (within : ∀ error, path.resolve root options = .error error → ¬ error.cutShort) :
    path.resolve root deeper = path.resolve root options := by
  unfold FieldPath.resolve at within ⊢
  split
  · rfl
  · rename_i unfinished
    rw [if_neg unfinished] at within
    have walked : walk deeper deeper.maxDepth path.segments { node := root } =
        walk options options.maxDepth path.segments { node := root } := by
      refine walk_deeper deepens.placeholders deepens.depth ?_
      intro depth exceeded
      rw [exceeded] at within
      exact within _ rfl ⟨depth, rfl⟩
    rw [walked, deepens.inArray]

theorem resolveText_deeper (deepens : options.Deepens deeper)
    (within : ∀ error, resolveText root path options = .error error → ¬ error.cutShort) :
    resolveText root path deeper = resolveText root path options := by
  unfold resolveText at within ⊢
  cases parsed : FieldPath.parse path with
  | error fault => rfl
  | ok segments =>
      rw [parsed] at within
      exact FieldPath.resolve_deeper deepens within

theorem FieldPath.resolve_grants {path : FieldPath} (deepens : options.Deepens deeper) :
    Grants (path.resolve root options) (path.resolve root deeper) := by
  intro resolved reached
  rw [FieldPath.resolve_deeper deepens, reached]
  intro error failed
  rw [reached] at failed
  contradiction

theorem resolveChecked_grants (deepens : options.Deepens deeper) :
    Grants (resolveChecked root path options) (resolveChecked root path deeper) :=
  Grants.mapError (.tail fun _ => FieldPath.resolve_grants deepens)

/-- A path that is refused for an undeclared field is refused for it within a larger depth. -/
theorem resolveChecked_deeper {refusal : Refusal} (deepens : options.Deepens deeper)
    (refused : resolveChecked root path options = .error refusal)
    (unknown : refusal.isUnknownField = true) :
    resolveChecked root path deeper = .error refusal := by
  obtain ⟨error, failed, rfl⟩ := mapError_eq_error.mp refused
  refine mapError_eq_error.mpr ⟨error, ?_, rfl⟩
  rw [resolveText_deeper deepens, failed]
  intro other again
  cases failed.symm.trans again
  intro exceeded
  obtain ⟨depth, fault⟩ := exceeded
  obtain ⟨text, kind⟩ := error
  cases fault
  contradiction

end DocTyping
