import DocTyping.Proofs.Path.Removing
import DocTyping.Proofs.Pipeline.Leaves
import DocTyping.Proofs.Pipeline.Stages

namespace DocTyping

/-!
# Stages that remove

A stage that removes fields checks each of its paths against the schema before it, so
whether it is accepted depends only on which paths it states.  What it leaves depends on
nothing more either, since removals commute and a repeated one changes nothing.
-/

namespace Pipeline

variable {pipeline next : Pipeline} {path : String} {paths permuted : List String}
  {start final : Schema} {first second : Json}

structure Removable (pipeline : Pipeline) (path : String) : Prop where
  names : fieldNames "$unset" path = .ok (Text.splitDots path)
  resolves : pipeline.checkPath path = .ok ()

theorem removeAll_eq_ok : pipeline.removeAll paths start = .ok final ↔
    (∀ path ∈ paths, pipeline.Removable path) ∧
      start.removeEach (paths.map Text.splitDots) = final := by
  induction paths generalizing start with
  | nil => simp [removeAll, Schema.removeEach]
  | cons path rest ih =>
      simp only [removeAll, bind_eq_ok, ih, List.forall_mem_cons, List.map_cons,
        Schema.removeEach_cons]
      constructor
      · rintro ⟨names, read, _, resolves, removable, left⟩
        obtain rfl := fieldNames_eq_splitDots read
        exact ⟨⟨⟨read, resolves⟩, removable⟩, left⟩
      · rintro ⟨⟨removes, removable⟩, left⟩
        exact ⟨_, removes.names, (), removes.resolves, removable, left⟩

theorem unset_eq_ok (stated : removals first = .ok paths) :
    pipeline.unset first = .ok next ↔
      (∀ path ∈ paths, pipeline.Removable path) ∧
        pipeline.append "$unset" first
          (pipeline.schema.removeEach (paths.map Text.splitDots)) = next := by
  simp only [unset, reshape_eq_ok, withRemovals, stated, bind_eq_ok, removeAll_eq_ok]
  constructor
  · rintro ⟨_, ⟨_, ⟨⟩, removable, rfl⟩, rfl⟩
    exact ⟨removable, rfl⟩
  · rintro ⟨removable, rfl⟩
    exact ⟨_, ⟨_, rfl, removable, rfl⟩, rfl⟩

/-- Stages that state the same paths are accepted alike and leave the same schema. -/
theorem unset_congr (distinct : pipeline.schema.NamesDistinct)
    (stated : removals first = .ok paths) (restated : removals second = .ok permuted)
    (same : ∀ path, path ∈ paths ↔ path ∈ permuted) (accepted : pipeline.unset first = .ok next) :
    ∃ other, pipeline.unset second = .ok other ∧ other.schema = next.schema := by
  obtain ⟨removable, rfl⟩ := (unset_eq_ok stated).mp accepted
  have others : ∀ path ∈ permuted, pipeline.Removable path :=
    fun path member => removable path ((same path).mpr member)
  refine ⟨_, (unset_eq_ok restated).mpr ⟨others, rfl⟩, ?_⟩
  have parts : ∀ names, names ∈ permuted.map Text.splitDots ↔ names ∈ paths.map Text.splitDots := by
    simp [same]
  exact Schema.removeEach_congr distinct parts

end Pipeline

namespace Schema

/-- Where each object has one field for a name, a removed path no longer resolves if the objects on
the way are closed and nothing there is opaque.  Every path that neither begins it nor goes on from
it resolves as before.  Removals commute and a repeated one changes nothing, so a stage leaves the
same schema for the same paths in any order and number. -/
theorem removePath_laws {root : Schema} {names : List String} (distinct : root.NamesDistinct)
    (filled : names ≠ []) :
    ((∀ node ∈ root.way names, node ≠ unknown) →
      (∀ shape, object shape ∈ root.way names → shape.additional = none) →
        ∀ options resolved,
          (FieldPath.ofNames names).resolve (removePath names root) options ≠ .ok resolved) ∧
    (∀ others, ¬ names <+: others → ¬ others <+: names → ∀ options resolved,
      (FieldPath.ofNames others).resolve (removePath names root) options = .ok resolved ↔
        (FieldPath.ofNames others).resolve root options = .ok resolved) ∧
    (∀ others, removePath others (removePath names root) =
      removePath names (removePath others root)) ∧
    removePath names (removePath names root) = removePath names root ∧
    ∀ (pipeline : Pipeline) first second paths permuted next, pipeline.schema = root →
      Pipeline.removals first = .ok paths → Pipeline.removals second = .ok permuted →
        (∀ path, path ∈ paths ↔ path ∈ permuted) → pipeline.unset first = .ok next →
          ∃ other, pipeline.unset second = .ok other ∧ other.schema = next.schema := by
  refine ⟨?_, ?_, removePath_comm distinct names, removePath_again distinct names, ?_⟩
  · intro known closed options resolved reached
    have missed := locate_removePath filled distinct known closed
    obtain ⟨found, located, _⟩ := (FieldPath.resolve_names_iff filled).mp reached
    rw [missed] at located
    contradiction
  · intro others former latter options resolved
    exact FieldPath.resolve_congr (removePath_agreeApart names root) ⟨former, latter⟩
  · rintro pipeline first second paths permuted next rfl stated restated same accepted
    exact Pipeline.unset_congr distinct stated restated same accepted

def receipt : Schema :=
  .object ⟨[⟨"items", .array (.object ⟨[⟨"sku", .string, false, false⟩,
    ⟨"price", .number, true, false⟩], none⟩), false, true⟩, ⟨"note", .string, true, false⟩], none⟩

theorem removePath_laws_receipt :
    (∀ resolved, (FieldPath.ofNames ["items", "price"]).resolve
      (removePath ["items", "price"] receipt) {} ≠ .ok resolved) ∧
    (∃ resolved, (FieldPath.ofNames ["items", "sku"]).resolve
      (removePath ["items", "price"] receipt) {} = .ok resolved ∧ resolved.node = .string) ∧
    ∃ next other,
      Pipeline.unset { schema := receipt } (.array [.string "note", .string "items.price"]) =
        .ok next ∧
      Pipeline.unset { schema := receipt }
        (.array [.string "items.price", .string "note", .string "items.price"]) = .ok other ∧
      other.schema = next.schema := by
  have filled : ["items", "price"] ≠ [] := List.cons_ne_nil _ _
  have distinct : receipt.NamesDistinct := by
    simp [receipt, namesDistinct_object_iff, Shape.names, string, number]
  have shapes : ∀ node ∈ receipt.way ["items", "price"],
      node.shape?.map Shape.isOpen = some false := by decide
  have known : ∀ node ∈ receipt.way ["items", "price"], node ≠ unknown := by
    rintro node member rfl
    have shape := shapes unknown member
    contradiction
  have closed : ∀ shape, object shape ∈ receipt.way ["items", "price"] →
      shape.additional = none := by
    intro shape member
    simpa [shape?, Shape.isOpen] using shapes _ member
  have before : (FieldPath.ofNames ["items", "sku"]).resolve receipt {} =
      .ok ⟨.ofNames ["items", "sku"], ⟨.string, true, true, false, false⟩, false⟩ := rfl
  obtain ⟨next, accepted⟩ : ∃ next, Pipeline.unset { schema := receipt }
      (.array [.string "note", .string "items.price"]) = .ok next :=
    isOk_iff_exists.mp (by decide +kernel)
  have same : ∀ path, path ∈ ["note", "items.price"] ↔
      path ∈ ["items.price", "note", "items.price"] := by
    intro path
    simp only [List.mem_cons, List.not_mem_nil, or_false]
    tauto
  have restated : Pipeline.removals
      (.array [.string "items.price", .string "note", .string "items.price"]) =
        .ok ["items.price", "note", "items.price"] := rfl
  obtain ⟨lost, kept, _, _, repeated⟩ := removePath_laws distinct filled
  obtain ⟨other, acceptedToo, equal⟩ :=
    repeated { schema := receipt } _ _ _ _ next rfl rfl restated same accepted
  have after := (kept ["items", "sku"] (by decide) (by decide) {} _).mpr before
  exact ⟨lost known closed {}, ⟨_, after, rfl⟩, next, other, accepted, acceptedToo, equal⟩

end Schema

end DocTyping
