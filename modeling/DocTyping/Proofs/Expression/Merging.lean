import DocTyping.Proofs.Literal.Admission
import DocTyping.Proofs.Reordering.Types

namespace DocTyping

/-!
# Values of merged objects

Objects that are laid over each other have, under each key, the last value that one of them
gives.  The type that merging finds has under each name the last field that one of the types
declares, whether or not the object of that type has it.  So a value may meet a field that belongs
to another object.  `Layer.Loses` says when that field refuses the value, and the merged type
admits the merged object otherwise.
-/

section LastSome

variable {α β : Type} {read : α → Option β} {items rest : List α} {item : α} {result : β}

/-- What is read from the last item that has something to read. -/
def lastSome (read : α → Option β) (items : List α) : Option β := items.reverse.findSome? read

theorem lastSome_append :
    lastSome read (items ++ rest) = (lastSome read rest).or (lastSome read items) := by
  simp [lastSome, List.findSome?_append]

theorem lastSome_cons : lastSome read (item :: rest) = (lastSome read rest).or (read item) := by
  simp [lastSome, List.findSome?_append]

theorem lastSome_eq_none_iff : lastSome read items = none ↔ ∀ item ∈ items, read item = none := by
  simp [lastSome]

theorem exists_of_lastSome (found : lastSome read items = some result) :
    ∃ before item after, items = before ++ item :: after ∧ read item = some result ∧
      ∀ later ∈ after, read later = none := by
  obtain ⟨after, item, before, reversed, held, last⟩ := List.findSome?_eq_some_iff.mp found
  refine ⟨before.reverse, item, after.reverse, ?_, held, ?_⟩
  · simpa using congrArg List.reverse reversed
  · intro later member
    exact last later (List.mem_reverse.mp member)

/-- A state that each item is written to holds what the last item writes. -/
theorem look_foldl {σ : Type} {write : σ → α → σ} (look : σ → Option β)
    (written : ∀ state item, look (write state item) = (read item).or (look state))
    (items : List α) (start : σ) :
    look (items.foldl write start) = (lastSome read items).or (look start) := by
  induction items generalizing start with
  | nil => rfl
  | cons item rest ih => rw [List.foldl_cons, ih, written, lastSome_cons, Option.or_assoc]

end LastSome

/-- An object type with an object that it admits. -/
structure Layer where
  shape : Shape Schema
  entries : Entries
  names : shape.names.Nodup
  keys : entries.names.Nodup
  admitted : (Schema.object shape).admits (.object entries) false .full = true

namespace Layer

def type (layer : Layer) : Schema := .object layer.shape

def field? (key : String) (layer : Layer) : Option (Field Schema) := layer.shape.find? key

def additional? (layer : Layer) : Option Schema := layer.shape.additional

def value? (key : String) (layer : Layer) : Option Json := layer.entries.get? key

def mergedShape (layers : List Layer) : Shape Schema :=
  layers.foldl (fun merged layer => overlay merged layer.shape) .empty

/-- The objects of layers, written over each other: of the values under a key, the last counts. -/
def merged (layers : List Layer) : Entries :=
  layers.foldl (fun merged layer => merged.putAll layer.entries) []

variable {layers before after : List Layer} {layer : Layer} {key : String} {value : Json}
  {field : Field Schema}

theorem mergeObjectTypes_eq (layers : List Layer) :
    mergeObjectTypes (layers.map type) .empty = .object (mergedShape layers) := by
  unfold mergedShape
  generalize Shape.empty = shape
  induction layers generalizing shape with
  | nil => rfl
  | cons layer rest ih => exact ih (overlay shape layer.shape)

theorem mergedShape_nodup (layers : List Layer) : (mergedShape layers).names.Nodup := by
  refine List.foldlRecOn (motive := fun shape : Shape Schema => shape.names.Nodup) layers _
    List.nodup_nil ?_
  intro shape distinct layer _
  exact nodup_nameRule.foldl_putField distinct fun field _ => List.nodup_singleton field.name

theorem find?_mergedShape (key : String) (layers : List Layer) :
    (mergedShape layers).find? key = lastSome (field? key) layers := by
  have written : ∀ (shape : Shape Schema) (layer : Layer),
      (overlay shape layer.shape).find? key = (layer.field? key).or (shape.find? key) :=
    fun _ layer => find?_overlay layer.names
  exact (look_foldl (Shape.find? · key) written layers .empty).trans Option.or_none

theorem additional_mergedShape (layers : List Layer) :
    (mergedShape layers).additional = lastSome additional? layers := by
  have written : ∀ (shape : Shape Schema) (layer : Layer),
      (overlay shape layer.shape).additional = layer.additional?.or shape.additional :=
    fun _ _ => rfl
  exact (look_foldl Shape.additional written layers .empty).trans Option.or_none

theorem merged_nodup (layers : List Layer) : (merged layers).names.Nodup := by
  refine List.foldlRecOn (motive := fun entries : Entries => entries.names.Nodup) layers _
    List.nodup_nil ?_
  intro entries distinct layer _
  exact Keyed.putAll_nodup layer.entries distinct

theorem get?_merged (key : String) (layers : List Layer) :
    (merged layers).get? key = lastSome (value? key) layers := by
  have written : ∀ (entries : Entries) (layer : Layer),
      (entries.putAll layer.entries).get? key = (layer.value? key).or (entries.get? key) :=
    fun _ layer => Keyed.get?_putAll layer.keys
  exact (look_foldl (Keyed.get? · key) written layers []).trans Option.or_none

theorem fits (layer : Layer) :
    (∀ entry ∈ layer.entries,
        Schema.AdmitsUnder (layer.field? entry.1) layer.additional? entry.2) ∧
      ∀ key, ∀ field ∈ layer.field? key, Schema.Given key field layer.entries .full := by
  have admitted := (Schema.admits_object_iff layer.names).mp layer.admitted
  obtain ⟨entries, same, _, conform, given⟩ := admitted.resolve_left (by simp)
  cases same
  exact ⟨conform, given⟩

theorem conform (layer : Layer) (given : layer.value? key = some value) :
    Schema.AdmitsUnder (layer.field? key) layer.additional? value :=
  layer.fits.1 (key, value) (Keyed.mem_of_lookup given)

theorem optional_of_missing (layer : Layer) (declared : layer.field? key = some field)
    (missing : layer.value? key = none) : field.optional = true := by
  rcases layer.fits.2 key field declared with optional | held | ⟨partly, _⟩
  · exact optional
  · rw [Keyed.has_eq_isSome_lookup] at held
    have absent : layer.entries.lookup key = none := missing
    rw [absent] at held
    contradiction
  · contradiction

/-- The merged type refuses the value that a layer gives to a key and no later layer does. -/
inductive Refuses (before : List Layer) (layer : Layer) (after : List Layer) (key : String)
    (value : Json) : Prop
  /-- A later layer declares the key, with a type that refuses the value. -/
  | replaced {field : Field Schema} (declared : lastSome (field? key) after = some field)
      (refused : field.node.admits value field.nullable .full = false) :
      Refuses before layer after key value
  /-- The value is of an undeclared key, and an earlier layer declares the key. -/
  | shadowed {field : Field Schema} (undeclared : layer.field? key = none)
      (later : lastSome (field? key) after = none)
      (declared : lastSome (field? key) before = some field)
      (refused : field.node.admits value field.nullable .full = false) :
      Refuses before layer after key value
  /-- No layer declares the key, and a later layer has undeclared keys of another type. -/
  | reopened {node : Schema}
      (undeclared : lastSome (field? key) (before ++ layer :: after) = none)
      (opened : lastSome additional? after = some node)
      (refused : node.admits value false .full = false) : Refuses before layer after key value

/-- The merged type refuses the last value that some key is given. -/
def Loses (layers : List Layer) : Prop :=
  ∃ before layer after key value, layers = before ++ layer :: after ∧
    layer.value? key = some value ∧ (∀ later ∈ after, later.value? key = none) ∧
      Refuses before layer after key value

theorem lastSome_split {β : Type} (read : Layer → Option β) :
    lastSome read (before ++ layer :: after) =
      ((lastSome read after).or (read layer)).or (lastSome read before) := by
  rw [lastSome_append, lastSome_cons]

theorem Refuses.not_admitsUnder (refuses : Refuses before layer after key value) :
    ¬ Schema.AdmitsUnder (lastSome (field? key) (before ++ layer :: after))
      (lastSome additional? (before ++ layer :: after)) value := by
  intro admitted
  cases refuses with
  | replaced declared refused =>
      rw [lastSome_split, declared] at admitted
      exact Bool.eq_false_iff.mp refused admitted
  | shadowed undeclared later declared refused =>
      rw [lastSome_split, undeclared, later, declared] at admitted
      exact Bool.eq_false_iff.mp refused admitted
  | reopened undeclared opened refused =>
      rw [undeclared, lastSome_split, opened] at admitted
      obtain ⟨_, same, admitted⟩ := admitted
      cases same
      exact Bool.eq_false_iff.mp refused admitted

/-- Nobody declares the key of a value, so the type of undeclared keys counts that comes last. -/
theorem refuses_of_undeclared
    (undeclared : lastSome (field? key) (before ++ layer :: after) = none)
    (conform : Schema.AdmitsUnder none layer.additional? value)
    (missed : ¬ Schema.AdmitsUnder none (lastSome additional? (before ++ layer :: after)) value) :
    Refuses before layer after key value := by
  obtain ⟨node, additional, admits⟩ := conform
  rw [lastSome_split, additional] at missed
  cases opened : lastSome additional? after with
  | none =>
      rw [opened] at missed
      exact absurd ⟨node, rfl, admits⟩ missed
  | some other =>
      rw [opened] at missed
      refine .reopened undeclared opened (Bool.eq_false_iff.mpr ?_)
      exact fun admits => missed ⟨other, rfl, admits⟩

theorem refuses_of_not_admitsUnder
    (conform : Schema.AdmitsUnder (layer.field? key) layer.additional? value)
    (missed : ¬ Schema.AdmitsUnder (lastSome (field? key) (before ++ layer :: after))
      (lastSome additional? (before ++ layer :: after)) value) :
    Refuses before layer after key value := by
  -- Which field stands under the key is decided by the layers after, the layer itself, and the
  -- layers before, in this order.
  cases later : lastSome (field? key) after with
  | some field =>
      rw [lastSome_split, later] at missed
      exact .replaced later (Bool.eq_false_iff.mpr missed)
  | none =>
      cases own : layer.field? key with
      | some field =>
          rw [lastSome_split, later, own] at missed
          rw [own] at conform
          exact absurd conform missed
      | none =>
          cases earlier : lastSome (field? key) before with
          | some field =>
              rw [lastSome_split, later, own, earlier] at missed
              exact .shadowed own later earlier (Bool.eq_false_iff.mpr missed)
          | none =>
              have undeclared : lastSome (field? key) (before ++ layer :: after) = none := by
                rw [lastSome_split, later, own, earlier]
                rfl
              rw [own] at conform
              rw [undeclared] at missed
              exact refuses_of_undeclared undeclared conform missed

theorem conform_merged_iff :
    (∀ entry ∈ merged layers, Schema.AdmitsUnder ((mergedShape layers).find? entry.1)
      (mergedShape layers).additional entry.2) ↔ ¬ Loses layers := by
  simp only [find?_mergedShape, additional_mergedShape]
  constructor
  · intro each lost
    obtain ⟨before, layer, after, key, value, rfl, stated, last, refuses⟩ := lost
    have written : (merged (before ++ layer :: after)).get? key = some value := by
      rw [get?_merged, lastSome_split, lastSome_eq_none_iff.mpr last, stated]
      rfl
    have admitted := each (key, value) (Keyed.mem_of_lookup written)
    exact refuses.not_admitsUnder admitted
  · intro kept entry member
    obtain ⟨key, value⟩ := entry
    have written := (Keyed.get?_eq_some_iff (merged_nodup layers)).mpr member
    rw [get?_merged] at written
    obtain ⟨before, layer, after, rfl, stated, last⟩ := exists_of_lastSome written
    by_contra missed
    have refuses := refuses_of_not_admitsUnder (layer.conform stated) missed
    exact kept ⟨before, layer, after, key, value, rfl, stated, last, refuses⟩

theorem given_merged :
    ∀ key, ∀ field ∈ (mergedShape layers).find? key,
      Schema.Given key field (merged layers) .full := by
  intro key field declared
  rw [find?_mergedShape, Option.mem_def] at declared
  obtain ⟨before, layer, after, rfl, held, _⟩ := exists_of_lastSome declared
  cases written : (merged (before ++ layer :: after)).get? key with
  | some value =>
      refine .inr (.inl ?_)
      rw [Keyed.has_eq_isSome_lookup]
      exact Option.isSome_of_eq_some written
  | none =>
      rw [get?_merged, lastSome_eq_none_iff] at written
      exact .inl (layer.optional_of_missing held (written layer (by simp)))

theorem Loses.lax (lost : Loses layers) :
    ∃ layer ∈ layers, layer.shape.isOpen = true ∨
      ∃ field ∈ layer.shape.fields, field.optional = true := by
  obtain ⟨before, layer, after, key, value, rfl, stated, last, refuses⟩ := lost
  have opened : layer.field? key = none → layer.shape.isOpen = true := by
    intro undeclared
    have conform := layer.conform stated
    rw [undeclared] at conform
    obtain ⟨node, additional, _⟩ := conform
    exact Option.isSome_of_eq_some additional
  cases refuses with
  | replaced declared _ =>
      obtain ⟨between, holder, rest, rfl, held, _⟩ := exists_of_lastSome declared
      have optional := holder.optional_of_missing held (last holder (by simp))
      exact ⟨holder, by simp, .inr ⟨_, Shape.mem_of_find? held, optional⟩⟩
  | shadowed undeclared => exact ⟨layer, by simp, .inl (opened undeclared)⟩
  | reopened undeclared =>
      have own := lastSome_eq_none_iff.mp undeclared layer (by simp)
      exact ⟨layer, by simp, .inl (opened own)⟩

/-- The merge of object types admits the merge of their objects, unless it loses a value or the
merge is an extended literal.  A value can only be lost where a type is open or has an optional
field. -/
theorem mergeObjectTypes_admits_iff (layers : List Layer) :
    ((mergeObjectTypes (layers.map type) .empty).admits (.object (merged layers)) false .full =
        true ↔ Json.extendedKind? (merged layers) = none ∧ ¬ Loses layers) ∧
      (Loses layers → ∃ layer ∈ layers, layer.shape.isOpen = true ∨
        ∃ field ∈ layer.shape.fields, field.optional = true) := by
  refine ⟨?_, Loses.lax⟩
  rw [mergeObjectTypes_eq, Schema.admits_object_iff (mergedShape_nodup layers)]
  constructor
  · intro admitted
    obtain ⟨_, same, unwrapped, conform, _⟩ := admitted.resolve_left (by simp)
    cases same
    exact ⟨unwrapped, conform_merged_iff.mp conform⟩
  · intro kept
    exact .inr ⟨_, rfl, kept.1, conform_merged_iff.mpr kept.2, given_merged⟩

def textLimit : Layer :=
  ⟨⟨[⟨"limit", .string, false, false⟩], none⟩, [("limit", .string "none")], by decide, by decide,
    by decide⟩

def absentLimit : Layer :=
  ⟨⟨[⟨"limit", .scalar .int, true, false⟩], none⟩, [], by decide, by decide, by decide⟩

def numericLimit : Layer :=
  ⟨⟨[⟨"limit", .scalar .int, false, false⟩], none⟩, [("limit", .ofInt 10)], by decide, by decide,
    by decide⟩

theorem mergeObjectTypes_admits_iff_limits :
    (mergeObjectTypes [textLimit.type, absentLimit.type] .empty).admits
        (.object [("limit", .string "none")]) false .full = false ∧
      (mergeObjectTypes [textLimit.type, numericLimit.type] .empty).admits
        (.object [("limit", .ofInt 10)]) false .full = true := by
  have lost : Loses [textLimit, absentLimit] := by
    refine ⟨[], textLimit, [absentLimit], "limit", .string "none", rfl, rfl, ?_, ?_⟩
    · exact List.forall_mem_singleton.mpr rfl
    · exact .replaced rfl (by decide)
  have required : ¬ Loses [textLimit, numericLimit] := by
    have strict : ∀ layer ∈ [textLimit, numericLimit], layer.shape.isOpen = false ∧
        ∀ field ∈ layer.shape.fields, field.optional = false := by decide
    intro lost
    obtain ⟨layer, member, opened | ⟨field, declared, optional⟩⟩ :=
      (mergeObjectTypes_admits_iff _).2 lost
    · rw [(strict layer member).1] at opened
      contradiction
    · rw [(strict layer member).2 field declared] at optional
      contradiction
  constructor
  · have refused := mt (mergeObjectTypes_admits_iff [textLimit, absentLimit]).1.mp
    exact Bool.eq_false_iff.mpr (refused fun admitted => admitted.2 lost)
  · exact (mergeObjectTypes_admits_iff [textLimit, numericLimit]).1.mpr ⟨by decide, required⟩

end Layer

end DocTyping
