namespace DocTyping

/-!
# Accumulators

The operators that gather values of a group or a window.
-/

inductive AccumulatorArgs where
  | expression
  | emptyObject
  | named (required optional : List String)
deriving DecidableEq, Repr

inductive AccumulatorOutput where
  | number
  /-- An array of the type of the inner expression. -/
  | arrayOfInner
  /-- The type of the inner expression. -/
  | inner
deriving DecidableEq, Repr

structure Accumulator where
  name : String
  args : AccumulatorArgs
  /-- The argument that holds the inner expression; `none` when the whole argument does. -/
  inner : Option String
  output : AccumulatorOutput
  windowOnly : Bool
deriving DecidableEq, Repr

namespace Accumulator

def all : List Accumulator :=
  [⟨"$sum", .expression, none, .number, false⟩,
    ⟨"$avg", .expression, none, .number, false⟩,
    ⟨"$stdDevPop", .expression, none, .number, false⟩,
    ⟨"$stdDevSamp", .expression, none, .number, false⟩,
    ⟨"$count", .emptyObject, none, .number, false⟩,
    ⟨"$push", .expression, none, .arrayOfInner, false⟩,
    ⟨"$addToSet", .expression, none, .arrayOfInner, false⟩,
    ⟨"$first", .expression, none, .inner, false⟩,
    ⟨"$last", .expression, none, .inner, false⟩,
    ⟨"$min", .expression, none, .inner, false⟩,
    ⟨"$max", .expression, none, .inner, false⟩,
    ⟨"$mergeObjects", .expression, none, .inner, false⟩,
    ⟨"$firstN", .named ["input", "n"] [], some "input", .arrayOfInner, false⟩,
    ⟨"$lastN", .named ["input", "n"] [], some "input", .arrayOfInner, false⟩,
    ⟨"$minN", .named ["input", "n"] [], some "input", .arrayOfInner, false⟩,
    ⟨"$maxN", .named ["input", "n"] [], some "input", .arrayOfInner, false⟩,
    ⟨"$top", .named ["output", "sortBy"] [], some "output", .inner, false⟩,
    ⟨"$bottom", .named ["output", "sortBy"] [], some "output", .inner, false⟩,
    ⟨"$topN", .named ["output", "n", "sortBy"] [], some "output", .arrayOfInner, false⟩,
    ⟨"$bottomN", .named ["output", "n", "sortBy"] [], some "output", .arrayOfInner, false⟩,
    ⟨"$rank", .emptyObject, none, .number, true⟩,
    ⟨"$denseRank", .emptyObject, none, .number, true⟩,
    ⟨"$documentNumber", .emptyObject, none, .number, true⟩,
    ⟨"$shift", .named ["output", "by"] ["default"], some "output", .inner, true⟩,
    ⟨"$derivative", .named ["input"] ["unit"], some "input", .number, true⟩,
    ⟨"$integral", .named ["input"] ["unit"], some "input", .number, true⟩,
    ⟨"$expMovingAvg", .named ["input"] ["N", "alpha"], some "input", .number, true⟩,
    ⟨"$covariancePop", .expression, none, .number, true⟩,
    ⟨"$covarianceSamp", .expression, none, .number, true⟩,
    ⟨"$locf", .expression, none, .inner, true⟩,
    ⟨"$linearFill", .expression, none, .number, true⟩]

def named? (name : String) : Option Accumulator :=
  all.find? fun accumulator => accumulator.name == name

end Accumulator

end DocTyping
