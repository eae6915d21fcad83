import DocTyping.Proofs.Schema.Reloading

namespace DocTyping

/-!
# Loaded schemas

Reading keeps one description for each name of an object, so a schema that was
loaded declares no name twice.
-/

namespace Description

/-- No object inside a description states a name twice. -/
inductive NamesDistinct : Description → Prop
  | scalar (kind : ScalarKind) : NamesDistinct (scalar kind)
  | array {items : Description} (inside : NamesDistinct items) : NamesDistinct (array items)
  | object {shape : Shape Description} (distinct : shape.names.Nodup)
      (fields : ∀ field ∈ shape.fields, NamesDistinct field.node)
      (additional : ∀ node, shape.additional = some node → NamesDistinct node) :
      NamesDistinct (object shape)

/-- Fields as an object may have them. -/
def FieldsDistinct (fields : List (Field Description)) : Prop :=
  (fields.map Field.name).Nodup ∧ ∀ field ∈ fields, field.node.NamesDistinct

theorem foldl_putField_fieldsDistinct (fields : List (Field Description))
    {stated : List (Field Description)} (distinct : FieldsDistinct stated)
    (each : ∀ field ∈ fields, field.node.NamesDistinct) :
    FieldsDistinct (fields.foldl Shape.putField stated) := by
  have names := nodup_nameRule.foldl_putField distinct.1 fun field (_ : field ∈ fields) =>
    List.nodup_singleton field.name
  refine ⟨names, fun field member => ?_⟩
  rcases Shape.mem_foldl_putField member with held | written
  · exact distinct.2 field held
  · exact each field written

/-- The parts that could be read state no name twice. -/
structure Parts.NamesDistinct (parts : Parts) : Prop where
  items : ∀ items, parts.items = some items → items.NamesDistinct
  fields : ∀ fields, parts.fields = some fields → FieldsDistinct fields
  additional : ∀ node, parts.additional = some (some node) → node.NamesDistinct

theorem Parts.absent_namesDistinct : Parts.absent.NamesDistinct :=
  ⟨by simp [absent], by simp [absent, FieldsDistinct], by simp [absent]⟩

theorem Parts.assemble_namesDistinct {parts : Parts} {tag : Tag} {description : Description}
    (distinct : parts.NamesDistinct) (assembled : parts.assemble tag = some description) :
    description.NamesDistinct := by
  cases tag with
  | scalar kind =>
      cases assembled
      exact .scalar kind
  | array =>
      simp only [assemble, Option.map_eq_some_iff] at assembled
      obtain ⟨items, stated, rfl⟩ := assembled
      exact .array (distinct.items items stated)
  | object =>
      simp only [assemble, Option.bind_eq_bind, Option.bind_eq_some_iff] at assembled
      obtain ⟨fields, stated, additional, open_, made⟩ := assembled
      cases made
      exact .object (distinct.fields fields stated).1 (distinct.fields fields stated).2
        fun node admitted => distinct.additional node (admitted ▸ open_)

theorem assembleEntries_namesDistinct {inner : Bool} {entries : List (String × Json)}
    {parts : Parts} {description : Description} (distinct : parts.NamesDistinct)
    (assembled : assembleEntries inner entries parts = some description) :
    description.NamesDistinct := by
  simp only [assembleEntries] at assembled
  split at assembled
  · split at assembled
    · exact parts.assemble_namesDistinct distinct assembled
    · contradiction
  · contradiction

mutual

theorem read?_namesDistinct {inner : Bool} :
    ∀ (value : Json) {description : Description}, read? inner value = some description →
      description.NamesDistinct
  | .object entries, _, read => assembleEntries_namesDistinct (readParts_namesDistinct entries) read
  | .array (tag :: parts), _, read => by
      unfold read? at read
      split at read
      · exact Parts.absent.assemble_namesDistinct Parts.absent_namesDistinct read
      · rename_i items _
        simp only [Option.map_eq_some_iff] at read
        obtain ⟨element, stated, rfl⟩ := read
        exact .array (read?_namesDistinct items stated)
      · exact Parts.absent.assemble_namesDistinct Parts.absent_namesDistinct read
      · rename_i fields _
        refine Parts.assemble_namesDistinct ?_ read
        exact { Parts.absent_namesDistinct with
          fields := fun _ stated => readFields?_namesDistinct fields stated }
      · rename_i fields additional _
        refine Parts.assemble_namesDistinct ?_ read
        refine ⟨by simp, fun _ stated => readFields?_namesDistinct fields stated, ?_⟩
        intro node stated
        exact readAdditional_namesDistinct additional stated
      · contradiction
  | .null, _, read | .bool _, _, read | .number _, _, read | .string _, _, read
  | .array [], _, read => by simp [read?] at read

theorem readAdditional_namesDistinct : ∀ (value : Json) {node : Description},
    (if value.isNull then some none else (read? true value).map some) = some (some node) →
      node.NamesDistinct := by
  intro value node stated
  split at stated
  · simp at stated
  · exact read?_namesDistinct value (by simpa using stated)

theorem readParts_namesDistinct :
    ∀ entries : List (String × Json), (readParts entries).NamesDistinct
  | [] => Parts.absent_namesDistinct
  | (key, value) :: rest => by
      have onward := readParts_namesDistinct rest
      simp only [readParts]
      split
      · exact { onward with items := fun _ stated => read?_namesDistinct value stated }
      · split
        · exact { onward with fields := fun _ stated => readFields?_namesDistinct value stated }
        · split
          · exact { onward with
              additional := fun _ stated => readAdditional_namesDistinct value stated }
          · exact onward

theorem readFields?_namesDistinct :
    ∀ (value : Json) {fields : List (Field Description)}, readFields? value = some fields →
      FieldsDistinct fields
  | .object entries, _, read => by
      simp only [readFields?, Option.map_eq_some_iff] at read
      obtain ⟨fields, each, rfl⟩ := read
      exact foldl_putField_fieldsDistinct fields ⟨by simp, by simp⟩
        (readEachField?_namesDistinct entries each)
  | .null, _, read | .bool _, _, read | .number _, _, read | .string _, _, read
  | .array _, _, read => by simp [readFields?] at read

theorem readEachField?_namesDistinct :
    ∀ (entries : List (String × Json)) {fields : List (Field Description)},
      readEachField? entries = some fields → ∀ field ∈ fields, field.node.NamesDistinct
  | [], _, read => by
      cases read
      simp
  | (name, value) :: rest, _, read => by
      simp only [readEachField?] at read
      split at read
      · rename_i field fields stated others
        cases read
        exact List.forall_mem_cons.mpr
          ⟨readField?_namesDistinct value stated, readEachField?_namesDistinct rest others⟩
      · contradiction

theorem readField?_namesDistinct {name : String} :
    ∀ (value : Json) {field : Field Description}, readField? name value = some field →
      field.node.NamesDistinct
  | .object entries, _, read => by
      simp only [readField?, Option.bind_eq_bind, Option.bind_eq_some_iff] at read
      obtain ⟨node, assembled, optional, _, nullable, _, made⟩ := read
      cases made
      exact assembleEntries_namesDistinct (readParts_namesDistinct entries) assembled
  | .null, _, read | .bool _, _, read | .number _, _, read | .string _, _, read
  | .array _, _, read => by simp [readField?] at read

end

theorem namesDistinct_of_describe {schema : Schema} (distinct : schema.describe.NamesDistinct) :
    schema.NamesDistinct := by
  induction schema using Schema.partsInduction with
  | scalar kind => exact .scalar kind
  | array element ih =>
      cases distinct with
      | array inside => exact .array (ih inside)
  | object shape each open_ =>
      rw [Schema.describe_object] at distinct
      cases distinct with
      | object names stated admitted =>
          refine .object ?_ (fun field member => ?_) fun node found => ?_
          · rwa [Shape.names, Schema.names_describeFields] at names
          · rw [Schema.describeFields_eq_map] at stated
            have inside := stated _ (List.mem_map_of_mem member)
            rw [Schema.describeField_eq] at inside
            exact each field member inside
          · exact open_ node found (admitted _ (congrArg (Option.map Schema.describe) found))

theorem load_namesDistinct {description : Description} {location : String} {schema : Schema}
    (distinct : description.NamesDistinct) (loaded : load location description = .ok schema) :
    schema.NamesDistinct := by
  obtain ⟨_, rfl⟩ := describe_of_load loaded
  exact namesDistinct_of_describe distinct

end Description

theorem Schema.ofJson_namesDistinct {source : String} {value : Json} {root : Schema}
    (loaded : ofJson source value = .ok root) : root.NamesDistinct := by
  unfold ofJson at loaded
  split at loaded
  · rename_i description read
    unfold ofDescription at loaded
    split at loaded
    · split at loaded
      · rename_i schema stated
        cases loaded
        exact Description.load_namesDistinct (Description.read?_namesDistinct value read) stated
      · contradiction
    · contradiction
  · contradiction

end DocTyping
