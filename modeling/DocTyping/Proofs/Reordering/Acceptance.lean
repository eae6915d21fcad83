import DocTyping.Proofs.Reordering.Updates

namespace DocTyping

/-!
# Acceptance up to the order of keys

No check of a filter, of an update or of an expression depends on the order in
which the keys of an object are written.
-/

/-- Of two documents that differ in the order of keys only, both are accepted or neither is: as
filters, as updates and as expressions, and then with types that are equal up to the order of
fields.  Objects hold each key once and schemas each name, as those that were read do. -/
theorem accepted_of_reorders {config : Configuration} {root : Schema} {bindings : Bindings}
    {value other : Json} (distinct : root.NamesDistinct)
    (bound : ∀ entry ∈ bindings, entry.2.NamesDistinct) (keys : value.KeysDistinct)
    (alike : value.Reorders other) :
    (value.checkFilter { config, bindings } root = .ok () ↔
      other.checkFilter { config, bindings } root = .ok ()) ∧
    (value.checkUpdate config root = .ok () ↔ other.checkUpdate config root = .ok ()) ∧
    (∀ type, value.infer (.ofRoot root config bindings) = .ok type →
      ∃ same, other.infer (.ofRoot root config bindings) = .ok same ∧
        type.equivalent same = true) ∧
    (∀ type, other.infer (.ofRoot root config bindings) = .ok type →
      ∃ same, value.infer (.ofRoot root config bindings) = .ok same ∧
        type.equivalent same = true) := by
  have otherKeys := alike.keysDistinct keys
  have scopes : (Scope.ofRoot root config bindings).Alike (.ofRoot root config bindings) :=
    .refl ⟨distinct, bound⟩
  refine ⟨⟨?_, ?_⟩, ⟨?_, ?_⟩, fun type typed => ?_, fun type typed => ?_⟩
  · exact alike.checkFilter bound distinct keys
  · exact alike.symm.checkFilter bound distinct otherKeys
  · exact alike.checkUpdate keys distinct
  · exact alike.symm.checkUpdate otherKeys distinct
  · obtain ⟨same, reached, equal⟩ := alike.infer scopes keys typed
    exact ⟨same, reached, equal.equal⟩
  · obtain ⟨same, reached, equal⟩ := alike.symm.infer scopes otherKeys typed
    exact ⟨same, reached, equal.equal⟩

def lineOrders : Schema :=
  closedObject [("lines", .array (closedObject [("price", .number), ("tag", .string)])),
    ("tax", .number)]

def taxedLine : Json :=
  .object [("tax", .object [("$gte", .ofInt 1), ("$lt", .ofInt 9)]),
    ("lines", .object [("$elemMatch", .object [("tag", .string "new"), ("price", .ofInt 2)])])]

/-- The filter with its keys the other way round. -/
def lineTaxed : Json :=
  .object [("lines",
      .object [("$elemMatch", .object [("price", .ofInt 2), ("tag", .string "new")])]),
    ("tax", .object [("$lt", .ofInt 9), ("$gte", .ofInt 1)])]

def taxAndLine : Json :=
  .object [("$set", .object [("tax", .ofInt 3)]),
    ("$push", .object [("lines", .object [("tag", .string "new"), ("price", .ofInt 2)])])]

/-- The update with its keys the other way round. -/
def lineAndTax : Json :=
  .object [("$push", .object [("lines", .object [("price", .ofInt 2), ("tag", .string "new")])]),
    ("$set", .object [("tax", .ofInt 3)])]

def renamedLines : Json :=
  .object [("$map", .object [("input", .string "$lines"), ("as", .string "line"),
    ("in", .object [("cost", .string "$$line.price"), ("name", .string "$$line.tag")])])]

/-- The expression with its keys the other way round. -/
def linesRenamed : Json :=
  .object [("$map", .object [
    ("in", .object [("name", .string "$$line.tag"), ("cost", .string "$$line.price")]),
    ("as", .string "line"), ("input", .string "$lines")])]

theorem accepted_of_reorders_orders :
    lineTaxed.checkFilter { config := {} } lineOrders = .ok () ∧
      lineAndTax.checkUpdate {} lineOrders = .ok () ∧
      ∃ type same, renamedLines.infer (.ofRoot lineOrders {} []) = .ok type ∧
        linesRenamed.infer (.ofRoot lineOrders {} []) = .ok same ∧ type.equivalent same = true := by
  have inside : (closedObject [("price", .number), ("tag", .string)]).NamesDistinct :=
    closedObject_namesDistinct (by decide) (by simp [Schema.number, Schema.string])
  have distinct : lineOrders.NamesDistinct :=
    closedObject_namesDistinct (by decide)
      (List.forall_mem_cons.mpr ⟨.array inside, by simp [Schema.number]⟩)
  have filterKeys : taxedLine.KeysDistinct := by
    simp [taxedLine, Json.keysDistinct_object_iff, Json.ofInt, Json.KeysDistinct.string,
      Json.KeysDistinct.number]
  have updateKeys : taxAndLine.KeysDistinct := by
    simp [taxAndLine, Json.keysDistinct_object_iff, Json.ofInt, Json.KeysDistinct.string,
      Json.KeysDistinct.number]
  have expressionKeys : renamedLines.KeysDistinct := by
    simp [renamedLines, Json.keysDistinct_object_iff, Json.KeysDistinct.string]
  have filters : taxedLine.Reorders lineTaxed :=
    .swap (by decide) (.swap (by decide) (.number _) (.number _))
      (.single (.swap (by decide) (.string _) (.number _)))
  have updates : taxAndLine.Reorders lineAndTax :=
    .swap (by decide) (.single (.number _))
      (.single (.swap (by decide) (.string _) (.number _)))
  have body : Json.Reorders
      (.object [("cost", .string "$$line.price"), ("name", .string "$$line.tag")])
      (.object [("name", .string "$$line.tag"), ("cost", .string "$$line.price")]) :=
    .swap (by decide) (.string _) (.string _)
  have expressions : renamedLines.Reorders linesRenamed :=
    .single (.object (by decide) (by simp [body, Json.Reorders.string]))
  have filtered : taxedLine.checkFilter { config := {} } lineOrders = .ok () :=
    eq_ok_iff_isOk.mpr (by decide +kernel)
  have updated : taxAndLine.checkUpdate {} lineOrders = .ok () :=
    eq_ok_iff_isOk.mpr (by decide +kernel)
  obtain ⟨type, typed⟩ : ∃ type, renamedLines.infer (.ofRoot lineOrders {} []) = .ok type :=
    isOk_iff_exists.mp (by decide +kernel)
  have unbound : ∀ entry ∈ ([] : Bindings), entry.2.NamesDistinct := by simp
  obtain ⟨filter, _⟩ := @accepted_of_reorders {} _ [] _ _ distinct unbound filterKeys filters
  obtain ⟨_, update, _⟩ := @accepted_of_reorders {} _ [] _ _ distinct unbound updateKeys updates
  obtain ⟨_, _, expression, _⟩ :=
    @accepted_of_reorders {} _ [] _ _ distinct unbound expressionKeys expressions
  obtain ⟨same, reached, equal⟩ := expression type typed
  exact ⟨filter.mp filtered, update.mp updated, type, same, typed, reached, equal⟩

end DocTyping
