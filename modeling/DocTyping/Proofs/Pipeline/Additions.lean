import DocTyping.Proofs.Path.Writes
import DocTyping.Proofs.Pipeline.Derivations
import DocTyping.Proofs.Pipeline.Leaves
import DocTyping.Proofs.Pipeline.Names
import DocTyping.Proofs.Reordering.Expressions
import DocTyping.Proofs.Reordering.Leaves

namespace DocTyping

/-!
# Additions in any order

A stage that adds fields writes or removes one leaf after the other.  Its leaves are
typed in the schema before it and their paths are apart, so that the order of keys does
not decide whether it is accepted.  It does not decide the schema after it, either, if no
leaf that is written uncovers one that is removed; and if one does, the schema of some
order differs.
-/

namespace Pipeline

variable {schema : Schema} {type : Schema} {names written removed : List String}
  {additions others : List (List String × Option Schema)}

def writesOf (additions : List (List String × Option Schema)) : List (List String × Schema) :=
  additions.filterMap fun addition => addition.2.map fun type => (addition.1, type)

def removalsOf (additions : List (List String × Option Schema)) : List (List String) :=
  additions.filterMap fun addition => if addition.2.isNone then some addition.1 else none

theorem mem_writesOf {write : List String × Schema} :
    write ∈ writesOf additions ↔ (write.1, some write.2) ∈ additions := by
  obtain ⟨names, type⟩ := write
  simp only [writesOf, List.mem_filterMap, Option.map_eq_some_iff, Prod.mk.injEq]
  constructor
  · rintro ⟨⟨_, _⟩, member, _, rfl, rfl, rfl⟩
    exact member
  · intro member
    exact ⟨_, member, type, rfl, rfl, rfl⟩

theorem mem_removalsOf : names ∈ removalsOf additions ↔ (names, none) ∈ additions := by
  simp only [removalsOf, List.mem_filterMap]
  constructor
  · rintro ⟨⟨path, _ | type⟩, member, found⟩
    · cases found
      exact member
    · contradiction
  · intro member
    exact ⟨_, member, rfl⟩

/-- No write among additions uncovers what they remove. -/
def Covered (additions : List (List String × Option Schema)) (schema : Schema) : Prop :=
  ∀ write ∈ writesOf additions, ∀ removed ∈ removalsOf additions,
    ¬ Schema.Uncovers write.1 removed schema

theorem pairwise_removalsOf (apart : (additions.map Prod.fst).Pairwise Apart) :
    (removalsOf additions).Pairwise Apart := by
  refine (List.pairwise_map.mp apart).filterMap _ ?_
  intro former latter apart first kept second keptToo
  obtain ⟨_, ⟨⟩⟩ := Option.ite_none_right_eq_some.mp kept
  obtain ⟨_, ⟨⟩⟩ := Option.ite_none_right_eq_some.mp keptToo
  exact apart

theorem pairwise_writesOf (apart : (additions.map Prod.fst).Pairwise Apart) :
    (writesOf additions).Pairwise fun former latter => Apart former.1 latter.1 := by
  refine (List.pairwise_map.mp apart).filterMap _ ?_
  intro former latter apart first kept second keptToo
  obtain ⟨_, _, rfl⟩ := Option.map_eq_some_iff.mp kept
  obtain ⟨_, _, rfl⟩ := Option.map_eq_some_iff.mp keptToo
  exact apart

/-- Additions that keep what they remove covered write what they write after all removals. -/
theorem foldl_applyAddition (apart : (additions.map Prod.fst).Pairwise Apart)
    (covered : Covered additions schema) :
    additions.foldl applyAddition schema =
      Schema.writeEach (writesOf additions) (schema.removeEach (removalsOf additions)) := by
  induction additions generalizing schema with
  | nil => rfl
  | cons addition rest ih =>
      obtain ⟨names, type⟩ := addition
      obtain ⟨head, tail⟩ := List.pairwise_cons.mp apart
      have separate : ∀ removed ∈ removalsOf rest, Apart names removed := fun removed member =>
        head removed (List.mem_map_of_mem (mem_removalsOf.mp member))
      cases type with
      | none =>
          refine ih tail fun write member removed lost uncovers => ?_
          have before := (Schema.uncovers_removePath_iff (separate removed lost)).mp uncovers
          exact covered write member removed (List.mem_cons_of_mem _ lost) before
      | some type =>
          have here : ∀ removed ∈ removalsOf rest, ¬ Schema.Uncovers names removed schema :=
            covered (names, type) List.mem_cons_self
          have later : Covered rest (Schema.setPath type {} names schema) := by
            intro write member removed lost uncovers
            rcases uncovers.of_setPath (separate removed lost) with before | itself
            · exact covered write (List.mem_cons_of_mem _ member) removed lost before
            · exact here removed lost itself
          have first : (Schema.setPath type {} names schema).removeEach (removalsOf rest) =
              Schema.setPath type {} names (schema.removeEach (removalsOf rest)) :=
            Schema.removeEach_setPath (pairwise_removalsOf tail) separate here
          exact (ih tail later).trans (congrArg (Schema.writeEach (writesOf rest)) first)

/-! ### Rearranged additions -/

/-- Additions at one path that write equal types there or both remove. -/
def AdditionAlike (addition other : List String × Option Schema) : Prop :=
  addition.1 = other.1 ∧ Option.Rel Schema.Same addition.2 other.2

section Rearranged

variable (alike : Rearranged AdditionAlike additions others)

include alike

theorem paths_perm : (additions.map Prod.fst).Perm (others.map Prod.fst) :=
  (alike.map fun _ _ _ same => same.1).perm_of_eq

theorem removalsOf_perm : (removalsOf additions).Perm (removalsOf others) := by
  refine (alike.filterMap fun addition other same => ?_).perm_of_eq
  obtain ⟨paths, types⟩ := same
  rcases rel_cases types with ⟨none, noneToo⟩ | ⟨_, _, written, writtenToo, _⟩
  · simp [none, noneToo, paths]
  · simp [written, writtenToo]

theorem writesOf_rearranged :
    Rearranged (fun write other => write.1 = other.1 ∧ write.2.Same other.2)
      (writesOf additions) (writesOf others) := by
  refine alike.filterMap fun addition other same => ?_
  obtain ⟨paths, types⟩ := same
  rcases rel_cases types with ⟨none, noneToo⟩ | ⟨_, _, written, writtenToo, equal⟩
  · simp [none, noneToo]
  · simp [written, writtenToo, paths, equal]

theorem Covered.rearranged (covered : Covered additions schema) : Covered others schema := by
  intro write member removed lost
  obtain ⟨original, listed, paths, _⟩ := (writesOf_rearranged alike).exists_of_mem member
  have gone := (removalsOf_perm alike).mem_iff.mpr lost
  exact paths ▸ covered original listed removed gone

/-- Covered additions leave equal schemas in any order. -/
theorem foldl_additions_same (apart : (additions.map Prod.fst).Pairwise Apart)
    (covered : Covered additions schema) (distinct : schema.NamesDistinct) :
    (additions.foldl applyAddition schema).Same (others.foldl applyAddition schema) := by
  have apartToo := (paths_perm alike).pairwise apart Apart.symm
  have removed : schema.removeEach (removalsOf additions) = schema.removeEach (removalsOf others) :=
    Schema.removeEach_congr distinct fun names => (removalsOf_perm alike).mem_iff
  rw [foldl_applyAddition apart covered, foldl_applyAddition apartToo (covered.rearranged alike),
    removed]
  obtain ⟨between, paired, perm⟩ := writesOf_rearranged alike
  have separate := perm.symm.pairwise (pairwise_writesOf apartToo) Apart.symm
  have inside : ∀ write ∈ between, write.2.NamesDistinct := fun write member =>
    let ⟨_, _, _, same⟩ := exists_of_mem_right paired member
    same.otherDistinct
  have start : (schema.removeEach (removalsOf others)).Same
      (schema.removeEach (removalsOf others)) := .refl distinct.removeEach
  exact (Schema.writeEach_same paired start).trans
    (Schema.writeEach_perm perm separate inside start.distinct)

end Rearranged

/-! ### Uncovered removals -/

theorem holds_foldl (held : Schema.Holds removed schema)
    (apart : ∀ addition ∈ additions, Apart addition.1 removed) :
    Schema.Holds removed (additions.foldl applyAddition schema) := by
  induction additions generalizing schema with
  | nil => exact held
  | cons addition rest ih =>
      obtain ⟨head, tail⟩ := List.forall_mem_cons.mp apart
      obtain ⟨names, _ | type⟩ := addition
      · exact ih (held.removePath head) tail
      · exact ih (held.setPath head) tail

/-- Some write uncovers the removal, so that the field is there in the end. -/
theorem holds_foldl_of_uncovers (uncovers : Schema.Uncovers written removed schema)
    (apart : ∀ addition ∈ additions, Apart addition.1 removed)
    (member : (written, some type) ∈ additions) :
    Schema.Holds removed (additions.foldl applyAddition schema) := by
  induction additions generalizing schema with
  | nil => contradiction
  | cons addition rest ih =>
      obtain ⟨head, tail⟩ := List.forall_mem_cons.mp apart
      rw [List.foldl_cons]
      rcases List.mem_cons.mp member with rfl | later
      · have held : Schema.Holds removed (applyAddition schema (written, some type)) :=
          uncovers.holds_setPath head
        exact holds_foldl held tail
      · obtain ⟨names, _ | type⟩ := addition
        · exact ih ((Schema.uncovers_removePath_iff head).mpr uncovers) tail later
        · have after : Schema.Holds removed (applyAddition schema (names, some type)) ∨
              Schema.Uncovers written removed (applyAddition schema (names, some type)) :=
            uncovers.setPath head
          rcases after with held | onward
          · exact holds_foldl held tail
          · exact ih onward tail later

theorem foldl_namesDistinct (distinct : schema.NamesDistinct)
    (inside : ∀ addition ∈ additions, ∀ type ∈ addition.2, type.NamesDistinct) :
    (additions.foldl applyAddition schema).NamesDistinct := by
  induction additions generalizing schema with
  | nil => exact distinct
  | cons addition rest ih =>
      obtain ⟨head, tail⟩ := List.forall_mem_cons.mp inside
      obtain ⟨names, _ | type⟩ := addition
      · exact ih distinct.removePath tail
      · exact ih (distinct.setPath (head type rfl)) tail

/-! ### Leaves that add -/

variable {pipeline next : Pipeline} {name stage : String} {specification first second : Json}
  {leaf counterpart : String × Json} {leaves : List (String × Json)}

def Removes (leaf : String × Json) : Prop := leaf.2.string? = some "$$REMOVE"

instance : Decidable (Removes leaf) := inferInstanceAs (Decidable (_ = _))

def addition (pipeline : Pipeline) (leaf : String × Json) : List String × Option Schema :=
  (Text.splitDots leaf.1, if Removes leaf then none else some (leaf.2.typeIn pipeline.scope))

/-- What a stage demands of a leaf that it adds. -/
structure Addable (pipeline : Pipeline) (leaf : String × Json) : Prop where
  names : FieldPath.parse leaf.1 = .ok (.ofNames (Text.splitDots leaf.1))
  typed : ¬ Removes leaf → pipeline.infer leaf.2 = .ok (leaf.2.typeIn pipeline.scope)

def readAddition (pipeline : Pipeline) (stage : String) (leaf : String × Json) :
    Checked (List String × Option Schema) := do
  let names ← fieldNames stage leaf.1
  if Removes leaf then return (names, none)
  else do
    let type ← pipeline.inferAt leaf.1 leaf.2
    return (names, some type)

theorem readAddition_eq_ok {result : List String × Option Schema} :
    pipeline.readAddition stage leaf = .ok result ↔
      pipeline.Addable leaf ∧ result = pipeline.addition leaf := by
  simp only [readAddition, bind_eq_ok]
  constructor
  · rintro ⟨names, named, read⟩
    obtain rfl := fieldNames_eq_splitDots named
    have parsed := fieldNames_eq_ok.mp named
    split at read
    · rename_i removes
      cases read
      exact ⟨⟨parsed, (absurd removes ·)⟩, by rw [addition, if_pos removes]⟩
    · rename_i writes
      simp only [bind_eq_ok, pure_eq_ok, inferAt_eq_ok] at read
      obtain ⟨type, typed, rfl⟩ := read
      obtain ⟨inferred, rfl⟩ := Json.infer_eq_ok_typeIn.mp typed
      exact ⟨⟨parsed, fun _ => inferred⟩, by rw [addition, if_neg writes]⟩
  · rintro ⟨addable, rfl⟩
    refine ⟨_, fieldNames_eq_ok.mpr addable.names, ?_⟩
    split
    · rename_i removes
      rw [addition, if_pos removes]
      rfl
    · rename_i writes
      rw [inferAt_eq_ok.mpr (addable.typed writes), addition, if_neg writes]
      rfl

theorem readAdditions_cons : pipeline.readAdditions stage (leaf :: leaves) =
    pipeline.readAddition stage leaf >>= fun addition =>
      pipeline.readAdditions stage leaves >>= fun additions => pure (addition :: additions) := by
  rw [readAdditions, readAddition, bind_assoc]
  congr 1
  funext names
  by_cases removes : leaf.2.string? = some "$$REMOVE"
  · simp [Removes, removes]
  · simp [Removes, removes]

theorem readAdditions_eq_ok : pipeline.readAdditions stage leaves = .ok additions ↔
    (∀ leaf ∈ leaves, pipeline.Addable leaf) ∧ additions = leaves.map pipeline.addition :=
  traversal_eq_ok (pipeline.readAddition stage) rfl (fun _ _ => readAdditions_cons)
    fun _ _ => readAddition_eq_ok

def added (pipeline : Pipeline) (leaves : List (String × Json)) : Schema :=
  (leaves.map pipeline.addition).foldl applyAddition pipeline.schema

/-- What a stage demands of all leaves that it adds. -/
structure AllAddable (pipeline : Pipeline) (leaves : List (String × Json)) : Prop where
  each : ∀ leaf ∈ leaves, pipeline.Addable leaf
  apart : ((leaves.map pipeline.addition).map Prod.fst).Pairwise Apart

theorem withAdditions_eq_ok (stated : specificationLeaves stage specification = .ok leaves) :
    pipeline.withAdditions stage specification = .ok schema ↔
      pipeline.AllAddable leaves ∧ pipeline.added leaves = schema := by
  simp only [withAdditions, stated, bind_eq_ok, readAdditions_eq_ok, checkCollisions_eq_ok,
    pure_eq_ok]
  constructor
  · rintro ⟨_, ⟨⟩, _, ⟨each, rfl⟩, _, apart, made⟩
    exact ⟨⟨each, apart⟩, made⟩
  · rintro ⟨⟨each, apart⟩, made⟩
    exact ⟨_, rfl, _, ⟨each, rfl⟩, (), apart, made⟩

theorem extendFlat_addition_eq_ok (adds : name ∈ ["$addFields", "$set"])
    (stated : specificationLeaves name specification = .ok leaves) :
    pipeline.extendFlat name specification = .ok next ↔
      pipeline.AllAddable leaves ∧
        pipeline.append name specification (pipeline.added leaves) = next := by
  have reshaped : pipeline.extendFlat name specification =
      pipeline.reshape name specification (pipeline.withAdditions name specification) := by
    simp only [List.mem_cons, List.not_mem_nil, or_false] at adds
    rcases adds with rfl | rfl <;> rfl
  simp only [reshaped, reshape_eq_ok, withAdditions_eq_ok stated]
  constructor
  · rintro ⟨_, ⟨addable, rfl⟩, rfl⟩
    exact ⟨addable, rfl⟩
  · rintro ⟨addable, rfl⟩
    exact ⟨_, ⟨addable, rfl⟩, rfl⟩

theorem addition_of_removes (removes : Removes leaf) :
    pipeline.addition leaf = (Text.splitDots leaf.1, none) := by
  rw [addition, if_pos removes]

theorem addition_of_writes (writes : ¬ Removes leaf) :
    pipeline.addition leaf = (Text.splitDots leaf.1, some (leaf.2.typeIn pipeline.scope)) := by
  rw [addition, if_neg writes]

theorem exists_leaf_of_write {write : List String × Schema}
    (member : write ∈ writesOf (leaves.map pipeline.addition)) :
    ∃ leaf ∈ leaves, ¬ Removes leaf ∧ Text.splitDots leaf.1 = write.1 := by
  obtain ⟨leaf, listed, adds⟩ := List.mem_map.mp (mem_writesOf.mp member)
  obtain ⟨path, written⟩ := Prod.mk.inj adds
  refine ⟨leaf, listed, fun removes => ?_, path⟩
  rw [if_pos removes] at written
  contradiction

theorem exists_leaf_of_removal (member : names ∈ removalsOf (leaves.map pipeline.addition)) :
    ∃ leaf ∈ leaves, Removes leaf ∧ Text.splitDots leaf.1 = names := by
  obtain ⟨leaf, listed, adds⟩ := List.mem_map.mp (mem_removalsOf.mp member)
  obtain ⟨path, removed⟩ := Prod.mk.inj adds
  refine ⟨leaf, listed, by_contra fun writes => ?_, path⟩
  rw [if_neg writes] at removed
  contradiction

theorem covered_of_leaves
    (covered : ∀ written ∈ leaves, ∀ removed ∈ leaves, ¬ Removes written → Removes removed →
      ¬ Schema.Uncovers (Text.splitDots written.1) (Text.splitDots removed.1) schema) :
    Covered (leaves.map pipeline.addition) schema := by
  intro write member names lost
  obtain ⟨written, listed, writes, path⟩ := exists_leaf_of_write member
  obtain ⟨removed, listedToo, removes, rfl⟩ := exists_leaf_of_removal lost
  exact path ▸ covered written listed removed listedToo writes removes

/-! ### The order of keys -/

variable {rest others : List (String × Json)}

theorem removes_iff (alike : LeafAlike leaf counterpart) :
    Removes leaf ↔ Removes counterpart := by
  rw [Removes, Removes, alike.2.string?_eq]

section Order

variable (distinct : pipeline.scope.NamesDistinct)

include distinct

theorem Addable.reorder (addable : pipeline.Addable leaf) (keys : leaf.2.KeysDistinct)
    (alike : LeafAlike leaf counterpart) :
    pipeline.Addable counterpart ∧
      AdditionAlike (pipeline.addition leaf) (pipeline.addition counterpart) := by
  have kind := removes_iff alike
  obtain ⟨named, values⟩ := alike
  by_cases removes : Removes leaf
  · refine ⟨⟨named ▸ addable.names, (absurd (kind.mp removes) ·)⟩, ?_⟩
    rw [addition_of_removes removes, addition_of_removes (kind.mp removes), named]
    exact ⟨rfl, .none⟩
  · obtain ⟨type, typed, same⟩ := values.infer (.refl distinct) keys (addable.typed removes)
    obtain ⟨inferred, rfl⟩ := Json.infer_eq_ok_typeIn.mp typed
    refine ⟨⟨named ▸ addable.names, fun _ => inferred⟩, ?_⟩
    rw [addition_of_writes removes, addition_of_writes (mt kind.mpr removes), named]
    exact ⟨rfl, .some same⟩

variable (keys : ∀ leaf ∈ leaves, leaf.2.KeysDistinct) (addable : pipeline.AllAddable leaves)

include keys addable

theorem additions_rearranged (alike : Rearranged LeafAlike leaves others) :
    Rearranged AdditionAlike (leaves.map pipeline.addition) (others.map pipeline.addition) :=
  alike.map fun leaf member _ same =>
    ((addable.each leaf member).reorder distinct (keys leaf member) same).2

theorem AllAddable.rearranged (alike : Rearranged LeafAlike leaves others) :
    pipeline.AllAddable others := by
  refine ⟨fun other held => ?_, ?_⟩
  · obtain ⟨leaf, member, same⟩ := alike.exists_of_mem held
    exact ((addable.each leaf member).reorder distinct (keys leaf member) same).1
  · have paths := paths_perm (additions_rearranged distinct keys addable alike)
    exact paths.pairwise addable.apart Apart.symm

theorem added_namesDistinct : (pipeline.added leaves).NamesDistinct := by
  refine foldl_namesDistinct distinct.root ?_
  refine List.forall_mem_map.mpr fun leaf member type given => ?_
  have alike : LeafAlike leaf leaf := ⟨rfl, (keys leaf member).reorders⟩
  obtain ⟨_, _, types⟩ := (addable.each leaf member).reorder distinct (keys leaf member) alike
  rcases rel_cases types with ⟨none, _⟩ | ⟨_, _, written, _, same⟩
  · rw [none] at given
    contradiction
  · rw [written] at given
    cases given
    exact same.distinct

end Order

mutual

theorem flattenLeaf_keysDistinct (value : Json) {key : String} (keys : value.KeysDistinct) :
    ∀ leaf ∈ flattenLeaf key value, leaf.2.KeysDistinct := by
  cases value with
  | object entries =>
      unfold flattenLeaf
      split
      · exact flattenEntries_keysDistinct entries (Json.keysDistinct_object_iff.mp keys).2
      · exact List.forall_mem_singleton.mpr keys
  | _ => exact List.forall_mem_singleton.mpr keys

theorem flattenEntries_keysDistinct (entries : List (String × Json)) {front : String}
    (each : ∀ entry ∈ entries, entry.2.KeysDistinct) :
    ∀ leaf ∈ flattenEntries front entries, leaf.2.KeysDistinct := by
  match entries with
  | [] => exact List.forall_mem_nil _
  | (key, value) :: rest =>
      obtain ⟨head, tail⟩ := List.forall_mem_cons.mp each
      unfold flattenEntries
      exact List.forall_mem_append.mpr
        ⟨flattenLeaf_keysDistinct value head, flattenEntries_keysDistinct rest tail⟩

end

theorem leaves_keysDistinct (keys : specification.KeysDistinct)
    (stated : specificationLeaves stage specification = .ok leaves) :
    ∀ leaf ∈ leaves, leaf.2.KeysDistinct := by
  unfold specificationLeaves at stated
  split at stated
  · split at stated
    · contradiction
    · cases stated
      exact flattenEntries_keysDistinct _ (Json.keysDistinct_object_iff.mp keys).2
  · contradiction

theorem AllAddable.of_append (addable : pipeline.AllAddable (leaves ++ rest)) :
    pipeline.AllAddable leaves := by
  have apart := addable.apart
  rw [List.map_append, List.map_append, List.pairwise_append] at apart
  exact ⟨fun leaf member => addable.each leaf (List.mem_append_left _ member), apart.1⟩

/-- A removal that comes first has nothing to remove yet, if a write uncovers it later. -/
theorem holds_added_of_first (addable : pipeline.AllAddable (leaf :: rest)) (removes : Removes leaf)
    (member : counterpart ∈ rest) (writes : ¬ Removes counterpart)
    (uncovers : Schema.Uncovers (Text.splitDots counterpart.1) (Text.splitDots leaf.1)
      pipeline.schema) :
    Schema.Holds (Text.splitDots leaf.1) (pipeline.added (leaf :: rest)) := by
  have apart := addable.apart
  rw [List.map_cons, addition_of_removes removes] at apart
  obtain ⟨head, _⟩ := List.pairwise_cons.mp apart
  have unchanged : applyAddition pipeline.schema (Text.splitDots leaf.1, none) = pipeline.schema :=
    Schema.removePath_of_not_holds uncovers.ne_nil uncovers.not_holds
  rw [added, List.map_cons, addition_of_removes removes, List.foldl_cons, unchanged]
  have listed : (Text.splitDots counterpart.1, some (counterpart.2.typeIn pipeline.scope)) ∈
      rest.map pipeline.addition := addition_of_writes writes ▸ List.mem_map_of_mem member
  refine holds_foldl_of_uncovers uncovers (fun addition listed => ?_) listed
  exact (head _ (List.mem_map_of_mem listed)).symm

/-- Nothing comes back after the last removal. -/
theorem not_holds_added_of_last (distinct : pipeline.scope.NamesDistinct)
    (keys : ∀ other ∈ rest ++ [leaf], other.2.KeysDistinct)
    (addable : pipeline.AllAddable (rest ++ [leaf])) (removes : Removes leaf)
    (filled : Text.splitDots leaf.1 ≠ []) :
    ¬ Schema.Holds (Text.splitDots leaf.1) (pipeline.added (rest ++ [leaf])) := by
  have inside := added_namesDistinct distinct
    (fun leaf member => keys leaf (List.mem_append_left _ member)) addable.of_append
  have last : pipeline.added (rest ++ [leaf]) =
      Schema.removePath (Text.splitDots leaf.1) (pipeline.added rest) := by
    rw [added, List.map_append, List.foldl_append, List.map_singleton, addition_of_removes removes]
    rfl
  rw [last]
  exact Schema.not_holds_removePath inside filled

section Orders

variable (distinct : pipeline.scope.NamesDistinct) (keys : first.KeysDistinct)
  (stated : specificationLeaves name first = .ok leaves) (addable : pipeline.AllAddable leaves)

include distinct keys stated addable

theorem reordered (alike : first.Reorders second) :
    ∃ others, specificationLeaves name second = .ok others ∧ pipeline.AllAddable others ∧
      (pipeline.added others).NamesDistinct ∧ Rearranged LeafAlike leaves others := by
  obtain ⟨others, restated, rearranged⟩ := specificationLeaves_reorders alike stated
  have addableToo := addable.rearranged distinct (leaves_keysDistinct keys stated) rearranged
  have inside := leaves_keysDistinct (alike.keysDistinct keys) restated
  exact ⟨others, restated, addableToo, added_namesDistinct distinct inside addableToo, rearranged⟩

/-- In some order the field is there in the end. -/
theorem exists_order_held (listed : counterpart ∈ leaves) (member : leaf ∈ leaves)
    (writes : ¬ Removes counterpart) (removes : Removes leaf)
    (uncovers : Schema.Uncovers (Text.splitDots counterpart.1) (Text.splitDots leaf.1)
      pipeline.schema) :
    ∃ second others, first.Reorders second ∧ specificationLeaves name second = .ok others ∧
      Schema.Holds (Text.splitDots leaf.1) (pipeline.added others) := by
  obtain ⟨⟨rest, second, alike, restated⟩, _⟩ := specificationLeaves_at_ends keys stated member
  obtain ⟨_, again, addableToo, _, rearranged⟩ := reordered distinct keys stated addable alike
  cases again.symm.trans restated
  obtain ⟨other, inside, paired⟩ := rearranged.exists_of_mem_left listed
  have writesToo : ¬ Removes other := mt (removes_iff paired).mpr writes
  have onward : other ∈ rest :=
    (List.mem_cons.mp inside).resolve_left fun here => writesToo (here ▸ removes)
  exact ⟨second, _, alike, restated,
    holds_added_of_first addableToo removes onward writesToo (paired.1 ▸ uncovers)⟩

/-- In some order the field is not there in the end. -/
theorem exists_order_removed (member : leaf ∈ leaves) (removes : Removes leaf)
    (filled : Text.splitDots leaf.1 ≠ []) :
    ∃ second others, first.Reorders second ∧ specificationLeaves name second = .ok others ∧
      ¬ Schema.Holds (Text.splitDots leaf.1) (pipeline.added others) := by
  obtain ⟨_, rest, second, alike, restated⟩ := specificationLeaves_at_ends keys stated member
  obtain ⟨_, again, addableToo, _, _⟩ := reordered distinct keys stated addable alike
  cases again.symm.trans restated
  have inside := leaves_keysDistinct (alike.keysDistinct keys) restated
  exact ⟨second, _, alike, restated,
    not_holds_added_of_last distinct inside addableToo removes filled⟩

end Orders

/-- The order of keys does not decide whether a stage that adds fields is accepted.  Up to the order
of fields it does not decide the schema after the stage either, exactly if no leaf that is written
uncovers one that is removed. -/
theorem additions_in_any_order (distinct : pipeline.scope.NamesDistinct)
    (keys : first.KeysDistinct) (adds : name ∈ ["$addFields", "$set"])
    (stated : specificationLeaves name first = .ok leaves)
    (accepted : pipeline.extendFlat name first = .ok next) :
    (∀ second, first.Reorders second → ∃ other, pipeline.extendFlat name second = .ok other) ∧
    ((∀ written ∈ leaves, ∀ removed ∈ leaves, ¬ Removes written → Removes removed →
        ¬ Schema.Uncovers (Text.splitDots written.1) (Text.splitDots removed.1) pipeline.schema) ↔
      ∀ second other, first.Reorders second → pipeline.extendFlat name second = .ok other →
        next.schema.equivalent other.schema = true) := by
  obtain ⟨addable, rfl⟩ := (extendFlat_addition_eq_ok adds stated).mp accepted
  have inside := leaves_keysDistinct keys stated
  refine ⟨fun second alike => ?_, fun covered second other alike acceptedToo => ?_, ?_⟩
  · obtain ⟨others, restated, addableToo, _⟩ := reordered distinct keys stated addable alike
    exact ⟨_, (extendFlat_addition_eq_ok adds restated).mpr ⟨addableToo, rfl⟩⟩
  · obtain ⟨others, restated, _, _, rearranged⟩ := reordered distinct keys stated addable alike
    obtain ⟨_, rfl⟩ := (extendFlat_addition_eq_ok adds restated).mp acceptedToo
    have additions := additions_rearranged distinct inside addable rearranged
    exact (foldl_additions_same additions addable.apart (covered_of_leaves covered)
      distinct.root).equal
  · intro equal written listed removed member writes removes uncovers
    have same : ∀ second others, first.Reorders second →
        specificationLeaves name second = .ok others →
          (pipeline.added leaves).Same (pipeline.added others) := by
      intro second others alike restated
      obtain ⟨_, again, addableToo, distinctToo, _⟩ := reordered distinct keys stated addable alike
      cases again.symm.trans restated
      have acceptedToo := (extendFlat_addition_eq_ok adds restated).mpr ⟨addableToo, rfl⟩
      exact ⟨added_namesDistinct distinct inside addable, distinctToo, equal _ _ alike acceptedToo⟩
    obtain ⟨former, begun, alike, restated, held⟩ :=
      exists_order_held distinct keys stated addable listed member writes removes uncovers
    obtain ⟨latter, ended, alikeToo, restatedToo, gone⟩ :=
      exists_order_removed distinct keys stated addable member removes uncovers.ne_nil
    have across := (same former begun alike restated).symm.trans
      (same latter ended alikeToo restatedToo)
    exact gone (held.same across)

def plotted : Pipeline :=
  { schema := .object ⟨[⟨"total", .number, false, false⟩], some (.object
      ⟨[⟨"x", .string, false, false⟩, ⟨"y", .string, false, false⟩], none⟩)⟩ }

/-- A removal beside a write that does not uncover it. -/
def moved : Json := .object [("first.x", .string "$total"), ("total", .string "$$REMOVE")]

/-- A removal beside a write that uncovers it. -/
def flattened : Json := .object [("first.x", .string "$total"), ("first.y", .string "$$REMOVE")]

theorem additions_in_any_order_plotted :
    (∃ next other, plotted.extendFlat "$set" moved = .ok next ∧
      plotted.extendFlat "$set"
        (.object [("total", .string "$$REMOVE"), ("first.x", .string "$total")]) = .ok other ∧
      next.schema.equivalent other.schema = true) ∧
    ∃ next, plotted.extendFlat "$set" flattened = .ok next ∧
      ¬ ∀ second other, flattened.Reorders second → plotted.extendFlat "$set" second = .ok other →
        next.schema.equivalent other.schema = true := by
  have distinct : plotted.scope.NamesDistinct := by
    refine ⟨?_, by simp [plotted, scope, Scope.ofRoot]⟩
    simp [plotted, scope, Scope.ofRoot, Schema.namesDistinct_object_iff, Shape.names,
      Schema.number, Schema.string]
  have keys : ∀ former latter value, former ≠ latter →
      Json.KeysDistinct (.object [(former, .string value), (latter, .string "$$REMOVE")]) := by
    intro former latter value different
    exact .object (by simpa [Keyed.names] using different) (by simp [Json.KeysDistinct.string])
  obtain ⟨next, accepted⟩ : ∃ next, plotted.extendFlat "$set" moved = .ok next :=
    isOk_iff_exists.mp (by decide +kernel)
  obtain ⟨added, acceptedToo⟩ : ∃ next, plotted.extendFlat "$set" flattened = .ok next :=
    isOk_iff_exists.mp (by decide +kernel)
  have adds : "$set" ∈ ["$addFields", "$set"] := by simp
  have stated : specificationLeaves "$set" moved =
      .ok [("first.x", .string "$total"), ("total", .string "$$REMOVE")] := rfl
  have statedToo : specificationLeaves "$set" flattened =
      .ok [("first.x", .string "$total"), ("first.y", .string "$$REMOVE")] := rfl
  obtain ⟨swaps, same⟩ :=
    additions_in_any_order distinct (keys _ _ _ (by decide)) adds stated accepted
  obtain ⟨_, apart⟩ :=
    additions_in_any_order distinct (keys _ _ _ (by decide)) adds statedToo acceptedToo
  have swapped : moved.Reorders
      (.object [("total", .string "$$REMOVE"), ("first.x", .string "$total")]) :=
    .swap (by decide) (.string _) (.string _)
  obtain ⟨other, swappedToo⟩ := swaps _ swapped
  have covered : ¬ Schema.Uncovers ["first", "x"] ["total"] plotted.schema := by
    rw [plotted, Schema.uncovers_object_iff]
    simp
  have uncovers : Schema.Uncovers ["first", "x"] ["first", "y"] plotted.schema :=
    .key rfl rfl (.last rfl)
  refine ⟨⟨next, other, accepted, swappedToo, same.mp ?_ _ _ swapped swappedToo⟩,
    added, acceptedToo, fun equal => ?_⟩
  · have removal : Removes ("total", .string "$$REMOVE") := by decide
    simp only [List.mem_cons, List.not_mem_nil, or_false]
    rintro written (rfl | rfl) removed (rfl | rfl) writes removes
    · exact absurd removes writes
    · exact covered
    · exact absurd removal writes
    · exact absurd removal writes
  · exact apart.mpr equal ("first.x", .string "$total") (by simp) ("first.y", .string "$$REMOVE")
      (by simp) (by decide) (by decide) uncovers

end Pipeline

end DocTyping
