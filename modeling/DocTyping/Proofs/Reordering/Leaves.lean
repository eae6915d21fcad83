import DocTyping.Pipeline.Projection
import DocTyping.Proofs.Reordering.Literals
import Mathlib.Data.List.Perm.Basic

namespace DocTyping

/-!
# Leaves up to the order of keys

Specifications that differ in the order of keys only have the same leaves in another
order: each at its key, and with a value that differs in the order of keys only.
-/

/-- Lists whose items are related one to one, in any order. -/
def Rearranged {α β : Type} (related : α → β → Prop) (items : List α) (others : List β) : Prop :=
  ∃ between, List.Forall₂ related items between ∧ between.Perm others

namespace Rearranged

variable {α β γ δ : Type} {related : α → β → Prop} {items more : List α} {others further : List β}

theorem single {item : α} {other : β} (holds : related item other) :
    Rearranged related [item] [other] :=
  ⟨[other], .cons holds .nil, .refl _⟩

theorem append (first : Rearranged related items others)
    (second : Rearranged related more further) :
    Rearranged related (items ++ more) (others ++ further) := by
  obtain ⟨between, paired, perm⟩ := first
  obtain ⟨later, pairedToo, permToo⟩ := second
  exact ⟨between ++ later, List.rel_append paired pairedToo, perm.append permToo⟩

theorem perm (rearranged : Rearranged related items others) (perm : others.Perm further) :
    Rearranged related items further := by
  obtain ⟨between, paired, before⟩ := rearranged
  exact ⟨between, paired, before.trans perm⟩

theorem flatMap {gather : γ → List α} {otherGather : δ → List β} {entries : List γ}
    {counterparts : List δ}
    (each : List.Forall₂ (fun entry other => Rearranged related (gather entry) (otherGather other))
      entries counterparts) :
    Rearranged related (entries.flatMap gather) (counterparts.flatMap otherGather) := by
  induction each with
  | nil => exact ⟨[], .nil, .refl _⟩
  | cons head _ ih => exact head.append ih

theorem map {change : α → γ} {otherChange : β → δ} {mapped : γ → δ → Prop}
    (rearranged : Rearranged related items others)
    (each : ∀ item ∈ items, ∀ other, related item other →
      mapped (change item) (otherChange other)) :
    Rearranged mapped (items.map change) (others.map otherChange) := by
  obtain ⟨between, paired, perm⟩ := rearranged
  refine ⟨between.map otherChange, ?_, perm.map _⟩
  rw [List.forall₂_map_left_iff, List.forall₂_map_right_iff]
  exact forall₂_imp_of_mem paired each

theorem filterMap {change : α → Option γ} {otherChange : β → Option δ} {mapped : γ → δ → Prop}
    (rearranged : Rearranged related items others)
    (each : ∀ item other, related item other →
      Option.Rel mapped (change item) (otherChange other)) :
    Rearranged mapped (items.filterMap change) (others.filterMap otherChange) := by
  obtain ⟨between, paired, perm⟩ := rearranged
  exact ⟨between.filterMap otherChange, List.rel_filterMap each paired, perm.filterMap _⟩

theorem perm_of_eq {items others : List α} (rearranged : Rearranged Eq items others) :
    items.Perm others := by
  obtain ⟨between, same, perm⟩ := rearranged
  rw [List.forall₂_eq_eq_eq] at same
  exact same ▸ perm

theorem exists_of_mem {other : β} (rearranged : Rearranged related items others)
    (held : other ∈ others) : ∃ item ∈ items, related item other := by
  obtain ⟨between, paired, perm⟩ := rearranged
  exact exists_of_mem_right paired (perm.mem_iff.mpr held)

theorem exists_of_mem_left {item : α} (rearranged : Rearranged related items others)
    (member : item ∈ items) : ∃ other ∈ others, related item other := by
  obtain ⟨between, paired, perm⟩ := rearranged
  obtain ⟨other, held, holds⟩ := exists_of_mem_right paired.flip member
  exact ⟨other, perm.mem_iff.mp held, holds⟩

end Rearranged

theorem Keyed.Alike.rearranged {α β : Type} {related : α → β → Prop} {entries : Keyed α}
    {others : Keyed β} {paired : String × α → String × β → Prop}
    (alike : entries.Alike related others)
    (each : ∀ entry ∈ entries, ∀ other ∈ others, entry.1 = other.1 → paired entry other) :
    Rearranged paired entries others := by
  have named : List.Forall₂ (fun name other => other ∈ others ∧ name = other.1) others.names
      others := by
    rw [names, List.forall₂_map_left_iff, List.forall₂_same]
    exact fun other member => ⟨member, rfl⟩
  obtain ⟨between, paired, perm⟩ := List.perm_comp_forall₂ alike.perm named
  rw [names, List.forall₂_map_left_iff] at paired
  refine ⟨between, ?_, perm⟩
  exact forall₂_imp_of_mem paired fun entry member other inside =>
    each entry member other inside.1 inside.2

/-- Leaves at one key whose values differ in the order of keys only. -/
def LeafAlike (leaf other : String × Json) : Prop := leaf.1 = other.1 ∧ leaf.2.Reorders other.2

variable {front key stage : String} {value other : Json}
  {entries others leaves : List (String × Json)}

theorem flattenEntries_eq_flatMap :
    flattenEntries front entries =
      entries.flatMap fun entry => flattenLeaf (front ++ entry.1) entry.2 := by
  induction entries with
  | nil => rfl
  | cons entry rest ih => rw [flattenEntries, ih, List.flatMap_cons]

theorem groupsKeys_eq (alike : Keyed.Alike Json.Reorders entries others) :
    groupsKeys entries = groupsKeys others := by
  rw [groupsKeys, groupsKeys, alike.isEmpty_eq, Json.extendedKind?_eq alike,
    hasOperatorKey_eq alike]

theorem flattenEntries_rearranged (alike : Keyed.Alike Json.Reorders entries others)
    (each : ∀ entry ∈ entries, ∀ other ∈ others, entry.1 = other.1 → ∀ key,
      Rearranged LeafAlike (flattenLeaf key entry.2) (flattenLeaf key other.2)) (front : String) :
    Rearranged LeafAlike (flattenEntries front entries) (flattenEntries front others) := by
  rw [flattenEntries_eq_flatMap, flattenEntries_eq_flatMap]
  have stepped : ∀ entry ∈ entries, ∀ other ∈ others, entry.1 = other.1 →
      Rearranged LeafAlike (flattenLeaf (front ++ entry.1) entry.2)
        (flattenLeaf (front ++ other.1) other.2) := by
    intro entry member other held same
    rw [← same]
    exact each entry member other held same (front ++ entry.1)
  obtain ⟨between, paired, perm⟩ := alike.rearranged stepped
  exact (Rearranged.flatMap paired).perm (perm.flatMap_right _)

theorem flattenLeaf_rearranged (alike : value.Reorders other) (key : String) :
    Rearranged LeafAlike (flattenLeaf key value) (flattenLeaf key other) := by
  induction alike generalizing key with
  | @object entries others names values each =>
      have alike : Keyed.Alike Json.Reorders entries others := ⟨names, values⟩
      unfold flattenLeaf
      rw [groupsKeys_eq alike]
      split
      · exact flattenEntries_rearranged alike each _
      · exact .single ⟨rfl, .object names values⟩
  | array sameLength values _ => exact .single ⟨rfl, .array sameLength values⟩
  | null => exact .single ⟨rfl, .null⟩
  | bool value => exact .single ⟨rfl, .bool value⟩
  | number value => exact .single ⟨rfl, .number value⟩
  | string text => exact .single ⟨rfl, .string text⟩

theorem specificationLeaves_reorders (alike : value.Reorders other)
    (stated : specificationLeaves stage value = .ok leaves) :
    ∃ rearranged, specificationLeaves stage other = .ok rearranged ∧
      Rearranged LeafAlike leaves rearranged := by
  unfold specificationLeaves at stated
  split at stated
  · rename_i entry entries
    obtain ⟨others, rfl, inside⟩ := alike.exists_object
    obtain ⟨held, rest, rfl⟩ := List.exists_cons_of_ne_nil (inside.ne_nil (List.cons_ne_nil _ _))
    rw [Json.isOperatorObject_eq inside] at stated
    split at stated
    · contradiction
    · rename_i plain
      cases stated
      refine ⟨_, by simp only [specificationLeaves, plain]; rfl, ?_⟩
      refine flattenEntries_rearranged inside (fun entry member other held same => ?_) ""
      exact flattenLeaf_rearranged (inside.values entry member other held same)
  · contradiction

/-! ### Any leaf at either end -/

theorem Json.KeysDistinct.reorders (keys : value.KeysDistinct) : value.Reorders value := by
  induction keys with
  | null => exact .null
  | bool value => exact .bool value
  | number value => exact .number value
  | string text => exact .string text
  | array _ ih => exact Json.reorders_array_iff.mpr (List.forall₂_same.mpr ih)
  | object distinct _ ih =>
      refine .object (.refl _) fun entry member other held same => ?_
      obtain rfl := List.inj_on_of_nodup_map distinct member held same
      exact ih entry member

/-- An entry may be put anywhere, with its value reordered. -/
theorem Keyed.Alike.moved {before after : List (String × Json)}
    (keys : Json.KeysDistinct (.object (before ++ (key, value) :: after)))
    (alike : value.Reorders other) (perm : ((key, other) :: (before ++ after)).Perm others) :
    Keyed.Alike Json.Reorders (before ++ (key, value) :: after) others := by
  obtain ⟨distinct, each⟩ := Json.keysDistinct_object_iff.mp keys
  have only := List.inj_on_of_nodup_map distinct
  constructor
  · refine .trans ?_ (perm.map Prod.fst)
    simp [Keyed.names]
  · intro entry member held inside same
    rcases List.mem_cons.mp (perm.mem_iff.mpr inside) with here | kept
    · have original : (key, value) ∈ before ++ (key, value) :: after := by simp
      have named : held.1 = key := congrArg Prod.fst here
      obtain rfl := only member original (same.trans named)
      rw [here]
      exact alike
    · have listed : held ∈ before ++ (key, value) :: after :=
        List.mem_append.mpr ((List.mem_append.mp kept).imp_right (List.mem_cons_of_mem _))
      obtain rfl := only member listed same
      exact (each entry member).reorders

/-- Of the lists that are meant one begins with an item, and one ends with it. -/
def AtEnds {α : Type} (meant : List α → Prop) (item : α) : Prop :=
  (∃ rest, meant (item :: rest)) ∧ ∃ rest, meant (rest ++ [item])

section AtEnds

variable {α : Type} {meant others : List α → Prop} {item : α}

theorem AtEnds.single (alone : meant [item]) : AtEnds meant item := ⟨⟨[], alone⟩, [], alone⟩

theorem AtEnds.imp (ends : AtEnds meant item) (weaken : ∀ items, meant items → others items) :
    AtEnds others item :=
  ⟨ends.1.imp fun _ => weaken _, ends.2.imp fun _ => weaken _⟩

end AtEnds

/-- The leaf of an entry comes first, or last, if that entry does and it comes so in its value. -/
theorem flattenEntries_at_ends {leaf : String × Json} (keys : Json.KeysDistinct (.object entries))
    (each : ∀ entry ∈ entries, ∀ key, leaf ∈ flattenLeaf key entry.2 →
      AtEnds (fun leaves => ∃ other, entry.2.Reorders other ∧ flattenLeaf key other = leaves) leaf)
    (member : leaf ∈ flattenEntries front entries) :
    AtEnds (fun leaves => ∃ others, Keyed.Alike Json.Reorders entries others ∧
      flattenEntries front others = leaves) leaf := by
  rw [flattenEntries_eq_flatMap, List.mem_flatMap] at member
  obtain ⟨⟨key, value⟩, listed, inside⟩ := member
  obtain ⟨⟨rest, former, alike, first⟩, back, latter, alikeToo, last⟩ := each _ listed _ inside
  obtain ⟨before, after, rfl⟩ := List.append_of_mem listed
  constructor
  · refine ⟨rest ++ flattenEntries front (before ++ after), (key, former) :: (before ++ after),
      .moved keys alike (.refl _), ?_⟩
    rw [flattenEntries, first, List.cons_append]
  · have moved : ((key, latter) :: (before ++ after)).Perm ((before ++ after) ++ [(key, latter)]) :=
      (List.perm_append_singleton _ _).symm
    refine ⟨flattenEntries front (before ++ after) ++ back, _, .moved keys alikeToo moved, ?_⟩
    rw [flattenEntries_eq_flatMap, List.flatMap_append, List.flatMap_singleton, last,
      flattenEntries_eq_flatMap, List.append_assoc]

theorem flattenLeaf_at_ends {leaf : String × Json} (keys : value.KeysDistinct)
    (member : leaf ∈ flattenLeaf key value) :
    AtEnds (fun leaves => ∃ other, value.Reorders other ∧ flattenLeaf key other = leaves) leaf := by
  induction keys generalizing key with
  | @object entries distinct each ih =>
      have keys : Json.KeysDistinct (.object entries) := .object distinct each
      by_cases groups : groupsKeys entries = true
      · rw [flattenLeaf, if_pos groups] at member
        refine (flattenEntries_at_ends keys (fun entry listed _ => ih entry listed) member).imp ?_
        rintro _ ⟨others, alike, rfl⟩
        refine ⟨.object others, Json.reorders_object_iff.mpr alike, ?_⟩
        rw [flattenLeaf, ← groupsKeys_eq alike, if_pos groups]
      · have whole : flattenLeaf key (.object entries) = [(key, .object entries)] := by
          rw [flattenLeaf, if_neg groups]
        obtain rfl := List.mem_singleton.mp (whole ▸ member)
        exact .single ⟨_, keys.reorders, whole⟩
  | array each _ =>
      obtain rfl := List.mem_singleton.mp member
      exact .single ⟨_, (Json.KeysDistinct.array each).reorders, rfl⟩
  | _ =>
      obtain rfl := List.mem_singleton.mp member
      exact .single ⟨_, by constructor, rfl⟩

/-- A specification may be reordered so that a given leaf comes first, or last. -/
theorem specificationLeaves_at_ends {leaf : String × Json} (keys : value.KeysDistinct)
    (stated : specificationLeaves stage value = .ok leaves) (member : leaf ∈ leaves) :
    AtEnds (fun leaves => ∃ other, value.Reorders other ∧
      specificationLeaves stage other = .ok leaves) leaf := by
  unfold specificationLeaves at stated
  split at stated
  · rename_i entry entries
    split at stated
    · contradiction
    · rename_i plain
      cases stated
      have inside := (Json.keysDistinct_object_iff.mp keys).2
      have ends := flattenEntries_at_ends keys
        (fun entry listed _ => flattenLeaf_at_ends (inside entry listed)) member
      refine ends.imp ?_
      rintro _ ⟨others, alike, rfl⟩
      obtain ⟨held, rest, rfl⟩ := List.exists_cons_of_ne_nil (alike.ne_nil (List.cons_ne_nil _ _))
      refine ⟨_, Json.reorders_object_iff.mpr alike, ?_⟩
      rw [specificationLeaves, ← Json.isOperatorObject_eq alike, if_neg plain]
  · contradiction

end DocTyping
