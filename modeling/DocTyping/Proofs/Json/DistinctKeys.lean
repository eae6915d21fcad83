import DocTyping.Json.Written
import DocTyping.Proofs.Keyed

namespace DocTyping.Json

/-!
# Distinct keys

No object of a document repeats a key.  This holds of every document that is
read from a text, since reading merges repeated keys.
-/

/-- No object inside a value repeats a key. -/
inductive KeysDistinct : Json → Prop
  | null : KeysDistinct null
  | bool (value : Bool) : KeysDistinct (bool value)
  | number (value : Number) : KeysDistinct (number value)
  | string (text : String) : KeysDistinct (string text)
  | array {items : List Json} (each : ∀ item ∈ items, KeysDistinct item) :
      KeysDistinct (array items)
  | object {entries : Entries} (distinct : entries.names.Nodup)
      (each : ∀ entry ∈ entries, KeysDistinct entry.2) : KeysDistinct (object entries)

theorem keysDistinct_array_iff {items : List Json} :
    (array items).KeysDistinct ↔ ∀ item ∈ items, item.KeysDistinct :=
  ⟨fun | .array each => each, .array⟩

theorem keysDistinct_object_iff {entries : Entries} :
    (object entries).KeysDistinct ↔
      entries.names.Nodup ∧ ∀ entry ∈ entries, entry.2.KeysDistinct :=
  ⟨fun | .object distinct each => ⟨distinct, each⟩, fun ⟨distinct, each⟩ => .object distinct each⟩

mutual

theorem mergeRepeated_keysDistinct : ∀ value : Json, value.mergeRepeated.KeysDistinct
  | .null => .null
  | .bool value => .bool value
  | .number value => .number value
  | .string text => .string text
  | .array items => .array (mergeItems_keysDistinct items)
  | .object entries =>
      keysDistinct_object_iff.mpr (mergeEntries_keysDistinct entries [] (by simp) (by simp))

theorem mergeItems_keysDistinct :
    ∀ items : List Json, ∀ item ∈ mergeItems items, item.KeysDistinct
  | [] => by simp [mergeItems]
  | item :: rest => by
      intro merged member
      rcases List.mem_cons.mp member with here | later
      · rw [here]
        exact mergeRepeated_keysDistinct item
      · exact mergeItems_keysDistinct rest merged later

/-- The entries merged so far carry the invariant through the rest. -/
theorem mergeEntries_keysDistinct :
    ∀ (entries : List (String × Json)) (merged : Entries), merged.names.Nodup →
      (∀ entry ∈ merged, entry.2.KeysDistinct) →
        (mergeEntries entries merged).names.Nodup ∧
          ∀ entry ∈ mergeEntries entries merged, entry.2.KeysDistinct
  | [], _, distinct, each => ⟨distinct, each⟩
  | (key, value) :: rest, merged, distinct, each => by
      refine mergeEntries_keysDistinct rest _ (Keyed.put_nodup _ distinct) ?_
      intro entry member
      rcases Keyed.mem_put member with held | written
      · exact each entry held
      · rw [written]
        exact mergeRepeated_keysDistinct value

end

theorem read?_keysDistinct {text : String} {value : Json} (read : read? text = some value) :
    value.KeysDistinct := by
  simp only [read?, Option.map_eq_some_iff] at read
  obtain ⟨repeated, _, rfl⟩ := read
  exact mergeRepeated_keysDistinct repeated

end DocTyping.Json
