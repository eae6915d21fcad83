import DocTyping.Vocabulary.Capability

namespace DocTyping

/-!
# Update operators
-/

inductive UpdatePayload where
  | value
  /-- A complete value of the target's type. -/
  | insertValue
  | number
  | bitwise
  /-- True, or an object that names a type of date. -/
  | currentDate
  | unsetMarker
  | renameTarget
  /-- An element, or elements with modifiers. -/
  | push
  /-- An element, or a list of elements. -/
  | addToSet
  /-- An element, or a filter on elements. -/
  | pull
  | pullAll
  | pop
deriving DecidableEq, Repr

structure UpdateOperator where
  name : String
  capability : Capability
  allowPlaceholders : Bool
  /-- The target is removed, so it has to be optional. -/
  removesField : Bool
  payload : UpdatePayload
deriving DecidableEq, Repr

namespace UpdateOperator

def all : List UpdateOperator :=
  [⟨"$set", .any, true, false, .value⟩,
    ⟨"$setOnInsert", .any, false, false, .insertValue⟩,
    ⟨"$inc", .numeric, true, false, .number⟩,
    ⟨"$mul", .numeric, true, false, .number⟩,
    ⟨"$min", .numeric, true, false, .number⟩,
    ⟨"$max", .numeric, true, false, .number⟩,
    ⟨"$bit", .integer, true, false, .bitwise⟩,
    ⟨"$currentDate", .date, true, false, .currentDate⟩,
    ⟨"$unset", .any, true, true, .unsetMarker⟩,
    ⟨"$rename", .any, false, true, .renameTarget⟩,
    ⟨"$push", .arrayOf .any, false, false, .push⟩,
    ⟨"$addToSet", .arrayOf .any, false, false, .addToSet⟩,
    ⟨"$pull", .arrayOf .any, false, false, .pull⟩,
    ⟨"$pullAll", .arrayOf .any, false, false, .pullAll⟩,
    ⟨"$pop", .arrayOf .any, false, false, .pop⟩]

def named? (name : String) : Option UpdateOperator :=
  all.find? fun operator => operator.name == name

end UpdateOperator

end DocTyping
