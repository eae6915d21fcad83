import DocTyping.Pipeline.Projection
import DocTyping.Proofs.Path.Grammar
import DocTyping.Proofs.Path.Lookup

namespace DocTyping

/-!
# Paths of leaves

The leaves of a specification have paths of names, which are the parts of their keys.
They do not collide if none of them begins another.
-/

variable {pipeline : Pipeline} {stage path : String} {names : List String}
  {paths : List (List String)}

theorem fieldNames_eq_splitDots (read : fieldNames stage path = .ok names) :
    names = Text.splitDots path :=
  FieldPath.eq_splitDots_of_parse (fieldNames_eq_ok.mp read)

theorem fieldNames_undollared (named : fieldNames stage path = .ok names) :
    Text.startsWithDollar path = false :=
  FieldPath.undollared_of_parse (fieldNames_eq_ok.mp named)

theorem Pipeline.resolve_of_fieldNames (named : fieldNames stage path = .ok names) :
    pipeline.resolve path =
      ((FieldPath.ofNames names).resolve pipeline.schema
        pipeline.config.resolveOptions).mapError Refusal.ofPath := by
  rw [resolve, resolveIn, resolveChecked, resolveText, fieldNames_eq_ok.mp named]
  rfl

theorem firstCollision?_eq_none_iff : firstCollision? paths = none ↔ paths.Pairwise Apart := by
  induction paths with
  | nil => simp [firstCollision?]
  | cons first rest ih =>
      rw [List.pairwise_cons, ← ih, firstCollision?]
      have free : (rest.find? fun second => first.isPrefixOf second || second.isPrefixOf first) =
          none ↔ ∀ second ∈ rest, Apart first second := by
        simp [Apart]
      split
      · rename_i second found
        simp [← free, found]
      · rename_i absent
        exact (and_iff_right (free.mp absent)).symm

theorem checkCollisions_eq_ok {result : Unit} :
    checkCollisions stage paths = .ok result ↔ paths.Pairwise Apart := by
  rw [← firstCollision?_eq_none_iff, checkCollisions]
  cases firstCollision? paths with
  | none => simp
  | some pair => simp [Checked.within, Except.mapError]

end DocTyping
