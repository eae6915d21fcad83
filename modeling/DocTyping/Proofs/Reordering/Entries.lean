import DocTyping.Proofs.Json.DistinctKeys
import DocTyping.Proofs.Schema.Equality
import Mathlib.Data.List.Forall2

namespace DocTyping

/-!
# The order of keys

Two documents differ in the order of keys only, if at every depth their objects
have the same keys with such values under each, and their arrays such items place
by place.
-/

theorem exists_of_mem_right {α β : Type} {related : α → β → Prop} {items : List α} {others : List β}
    {other : β} (alike : List.Forall₂ related items others) (held : other ∈ others) :
    ∃ item ∈ items, related item other := by
  induction alike with
  | nil => simp at held
  | @cons first second rest later head tail ih =>
      rcases List.mem_cons.mp held with rfl | onward
      · exact ⟨first, List.mem_cons_self, head⟩
      · obtain ⟨item, member, inside⟩ := ih onward
        exact ⟨item, List.mem_cons_of_mem _ member, inside⟩

theorem forall₂_imp_of_mem {α β : Type} {related weaker : α → β → Prop} {items : List α}
    {others : List β} (alike : List.Forall₂ related items others)
    (weaken : ∀ item ∈ items, ∀ other, related item other → weaker item other) :
    List.Forall₂ weaker items others := by
  have listed := (List.forall₂_and_left items others).mpr ⟨fun _ => id, alike⟩
  exact listed.imp fun item other held => weaken item held.1 other held.2

theorem exists_paired {α β : Type} {items : List α} {others : List β} {other : β}
    (sameLength : items.length = others.length) (held : other ∈ others) :
    ∃ item ∈ items, (item, other) ∈ items.zip others := by
  have zipped : List.Forall₂ (fun item other => (item, other) ∈ items.zip others) items others :=
    List.forall₂_iff_zip.mpr ⟨sameLength, id⟩
  obtain ⟨item, member, paired⟩ := exists_of_mem_right zipped held
  exact ⟨item, member, paired⟩

namespace Keyed

variable {α β : Type} {related : α → β → Prop} {entries : Keyed α} {others : Keyed β}

/-- The same names in any order, with related values under each of them. -/
structure Alike (related : α → β → Prop) (entries : Keyed α) (others : Keyed β) : Prop where
  perm : entries.names.Perm others.names
  values : ∀ entry ∈ entries, ∀ other ∈ others, entry.1 = other.1 → related entry.2 other.2

theorem mem_names {entry : String × α} (member : entry ∈ entries) : entry.1 ∈ entries.names :=
  List.mem_map_of_mem member

theorem has_iff_mem_names {name : String} : entries.has name = true ↔ name ∈ entries.names := by
  simp [has, names]

namespace Alike

theorem nil : Alike related [] [] := ⟨.refl _, by simp⟩

theorem symm (alike : entries.Alike related others) :
    others.Alike (fun right left => related left right) entries :=
  ⟨alike.perm.symm, fun other held entry member same =>
    alike.values entry member other held same.symm⟩

theorem imp {weaker : α → β → Prop} (alike : entries.Alike related others)
    (weaken : ∀ entry ∈ entries, ∀ other ∈ others,
      related entry.2 other.2 → weaker entry.2 other.2) : entries.Alike weaker others :=
  ⟨alike.perm, fun entry member other held same =>
    weaken entry member other held (alike.values entry member other held same)⟩

theorem exists_of_mem (alike : entries.Alike related others) {other : String × β}
    (held : other ∈ others) : ∃ entry ∈ entries, entry.1 = other.1 ∧ related entry.2 other.2 := by
  obtain ⟨entry, member, same⟩ := List.mem_map.mp (alike.perm.mem_iff.mpr (mem_names held))
  exact ⟨entry, member, same, alike.values entry member other held same⟩

theorem forall_names (alike : entries.Alike related others) (holds : String → Prop)
    (each : ∀ entry ∈ entries, holds entry.1) : ∀ other ∈ others, holds other.1 := by
  intro other held
  obtain ⟨entry, member, same, _⟩ := alike.exists_of_mem held
  exact same ▸ each entry member

theorem has_eq (alike : entries.Alike related others) (name : String) :
    entries.has name = others.has name := by
  rw [Bool.eq_iff_iff, has_iff_mem_names, has_iff_mem_names]
  exact alike.perm.mem_iff

theorem isEmpty_eq (alike : entries.Alike related others) : entries.isEmpty = others.isEmpty := by
  rw [← List.isEmpty_map (f := Prod.fst), ← List.isEmpty_map (f := Prod.fst)]
  exact alike.perm.isEmpty_eq

theorem ne_nil (alike : entries.Alike related others) (filled : entries ≠ []) : others ≠ [] := by
  have same := alike.isEmpty_eq
  intro none
  rw [none] at same
  exact filled (List.isEmpty_iff.mp same)

theorem all_eq (alike : entries.Alike related others) (test : String → Bool) :
    (entries.all fun entry => test entry.1) = others.all fun other => test other.1 := by
  have mapped := alike.perm.all_eq (f := test)
  simpa [names, Function.comp_def] using mapped

theorem any_eq (alike : entries.Alike related others) (test : String → Bool) :
    (entries.any fun entry => test entry.1) = others.any fun other => test other.1 := by
  have mapped := alike.perm.any_eq (f := test)
  simpa [names, Function.comp_def] using mapped

theorem lookup (alike : entries.Alike related others) (name : String) :
    Option.Rel related (entries.lookup name) (others.lookup name) := by
  have present := alike.has_eq name
  rw [has_eq_isSome_lookup, has_eq_isSome_lookup] at present
  cases found : entries.lookup name with
  | none =>
      cases held : others.lookup name with
      | none => exact .none
      | some other => simp [found, held] at present
  | some value =>
      cases held : others.lookup name with
      | none => simp [found, held] at present
      | some other =>
          exact .some (alike.values _ (mem_of_lookup found) _ (mem_of_lookup held) rfl)

theorem exists_of_lookup (alike : entries.Alike related others) {name : String} {value : α}
    (found : entries.lookup name = some value) :
    ∃ other, others.lookup name = some other ∧ related value other := by
  rcases rel_cases (alike.lookup name) with ⟨absent, _⟩ | ⟨_, other, stated, held, inside⟩
  · rw [absent] at found
    contradiction
  · cases stated.symm.trans found
    exact ⟨other, held, inside⟩

theorem singleton {key : String} {value : α} (alike : Alike related [(key, value)] others) :
    ∃ other, others = [(key, other)] ∧ related value other := by
  match others, List.perm_singleton.mp alike.perm.symm with
  | [(_, other)], same =>
      obtain rfl : _ = key := by simpa using same
      exact ⟨other, rfl, alike.values _ List.mem_cons_self _ List.mem_cons_self rfl⟩

theorem map {γ δ : Type} {mapped : γ → δ → Prop} {change : α → γ} {otherChange : β → δ}
    (alike : entries.Alike related others)
    (each : ∀ entry ∈ entries, ∀ other ∈ others, related entry.2 other.2 →
      mapped (change entry.2) (otherChange other.2)) :
    Alike mapped (entries.map fun entry => (entry.1, change entry.2))
      (others.map fun other => (other.1, otherChange other.2)) := by
  refine ⟨by simpa [names, Function.comp_def] using alike.perm, ?_⟩
  refine List.forall_mem_map.mpr fun entry member => List.forall_mem_map.mpr fun other held => ?_
  exact fun same => each entry member other held (alike.values entry member other held same)

theorem reverse (alike : entries.Alike related others) :
    Alike related entries.reverse others.reverse := by
  refine ⟨?_, fun entry member other held => ?_⟩
  · simpa [names] using
      (List.reverse_perm _).trans (alike.perm.trans (List.reverse_perm _).symm)
  · exact alike.values entry (List.mem_reverse.mp member) other (List.mem_reverse.mp held)

/-- What is gathered from related entries is the same up to its order. -/
theorem flatMap_perm {γ : Type} {gather : String × α → List γ} {otherGather : String × β → List γ}
    (alike : entries.Alike related others)
    (each : ∀ entry ∈ entries, ∀ other ∈ others, entry.1 = other.1 →
      (gather entry).Perm (otherGather other)) :
    (entries.flatMap gather).Perm (others.flatMap otherGather) := by
  -- What is found under a name, be it in one sequence or in the other.
  let under : String → List γ := fun name =>
    ((entries.lookup name).map fun value => gather (name, value)).getD []
  have stated : ∀ other ∈ others, (under other.1).Perm (otherGather other) := by
    intro other held
    rcases rel_cases (alike.lookup other.1) with ⟨_, missing⟩ | ⟨value, _, found, _, _⟩
    · have present : others.has other.1 = true := has_iff_mem_names.mpr (mem_names held)
      simp [has_eq_isSome_lookup, missing] at present
    · simp only [under, found, Option.map_some, Option.getD_some]
      exact each (other.1, value) (mem_of_lookup found) other held rfl
  have named : ∀ entry ∈ entries, (gather entry).Perm (under entry.1) := by
    intro entry member
    obtain ⟨other, held, same, _⟩ := alike.symm.exists_of_mem member
    rw [← same]
    exact (each entry member other held same.symm).trans (stated other held).symm
  calc
    (entries.flatMap gather).Perm (entries.flatMap fun entry => under entry.1) :=
      List.Perm.flatMap_left _ named
    List.Perm _ (others.flatMap fun other => under other.1) := by
      simpa only [names, List.flatMap_map] using alike.perm.flatMap_right under
    List.Perm _ (others.flatMap otherGather) := List.Perm.flatMap_left _ stated

end Alike

end Keyed

namespace Json

/-- Equality up to the order of keys. -/
inductive Reorders : Json → Json → Prop
  | null : Reorders null null
  | bool (value : Bool) : Reorders (bool value) (bool value)
  | number (value : Number) : Reorders (number value) (number value)
  | string (text : String) : Reorders (string text) (string text)
  | array {items others : List Json} (sameLength : items.length = others.length)
      (each : ∀ pair ∈ items.zip others, Reorders pair.1 pair.2) :
      Reorders (array items) (array others)
  | object {entries others : List (String × Json)}
      (names : (Keyed.names entries).Perm (Keyed.names others))
      (values : ∀ entry ∈ entries, ∀ other ∈ others, entry.1 = other.1 →
        Reorders entry.2 other.2) :
      Reorders (object entries) (object others)

variable {value other : Json} {items permuted : List Json} {entries others : List (String × Json)}

theorem reorders_array_iff :
    Reorders (array items) (array permuted) ↔ List.Forall₂ Reorders items permuted := by
  rw [List.forall₂_iff_zip]
  constructor
  · intro alike
    cases alike with
    | array sameLength each => exact ⟨sameLength, fun member => each _ member⟩
  · intro alike
    exact .array alike.1 fun _ member => alike.2 member

theorem reorders_object_iff :
    Reorders (object entries) (object others) ↔ Keyed.Alike Reorders entries others :=
  ⟨fun | .object names values => ⟨names, values⟩, fun alike => .object alike.perm alike.values⟩

namespace Reorders

theorem symm (alike : value.Reorders other) : other.Reorders value := by
  induction alike with
  | null => exact .null
  | bool value => exact .bool value
  | number value => exact .number value
  | string text => exact .string text
  | array sameLength _ each =>
      have swapped := List.forall₂_iff_zip.mpr ⟨sameLength, fun member => each _ member⟩
      exact reorders_array_iff.mpr swapped.flip
  | object names _ each =>
      exact .object names.symm fun entry member other held same =>
        each other held entry member same.symm

theorem single {key : String} {inner : Json} (alike : inner.Reorders other) :
    Json.Reorders (.object [(key, inner)]) (.object [(key, other)]) :=
  .object (.refl _) (by simpa using alike)

theorem swap {first second : String} {one two : Json} (different : first ≠ second)
    (left : one.Reorders value) (right : two.Reorders other) :
    Json.Reorders (.object [(first, one), (second, two)])
      (.object [(second, other), (first, value)]) :=
  .object (.swap second first []) (by simp [different, different.symm, left, right])

theorem eq_string {text : String} (alike : Json.Reorders (.string text) other) :
    other = .string text := by
  cases alike with
  | string => rfl

theorem exists_array (alike : Json.Reorders (.array items) other) :
    ∃ permuted, other = .array permuted ∧ List.Forall₂ Reorders items permuted := by
  cases alike with
  | array sameLength each => exact ⟨_, rfl, reorders_array_iff.mp (.array sameLength each)⟩

theorem exists_object (alike : Json.Reorders (.object entries) other) :
    ∃ others, other = .object others ∧ Keyed.Alike Reorders entries others := by
  cases alike with
  | object names values => exact ⟨_, rfl, names, values⟩

theorem exists_single {key : String} {inner : Json}
    (alike : Json.Reorders (.object [(key, inner)]) other) :
    ∃ counterpart, other = .object [(key, counterpart)] ∧ inner.Reorders counterpart := by
  obtain ⟨others, rfl, inside⟩ := alike.exists_object
  obtain ⟨counterpart, rfl, below⟩ := inside.singleton
  exact ⟨counterpart, rfl, below⟩

theorem keysDistinct (alike : value.Reorders other) (keys : value.KeysDistinct) :
    other.KeysDistinct := by
  induction alike with
  | null => exact .null
  | bool value => exact .bool value
  | number value => exact .number value
  | string text => exact .string text
  | array sameLength _ each =>
      refine .array fun other held => ?_
      obtain ⟨item, member, paired⟩ := exists_paired sameLength held
      exact each _ paired (keysDistinct_array_iff.mp keys item member)
  | @object entries others names values each =>
      obtain ⟨distinct, inside⟩ := keysDistinct_object_iff.mp keys
      have alike : Keyed.Alike Reorders entries others := ⟨names, values⟩
      refine .object (names.nodup_iff.mp distinct) fun other held => ?_
      obtain ⟨entry, member, same, _⟩ := alike.exists_of_mem held
      exact each entry member other held same (inside entry member)

end Reorders

end Json

end DocTyping
