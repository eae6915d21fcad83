import DocTyping.Literal.Conformance
import DocTyping.Proofs.Checked
import DocTyping.Proofs.Keyed
import DocTyping.Proofs.Literal.Semilattice

namespace DocTyping

/-!
# Values of a common schema

What `Schema.unify` makes of two schemas admits the values of both, up to what
merging objects drops: fields that admit null, and undeclared keys.
-/

namespace Schema

variable {left right element : Schema} {one other shape : Shape Schema} {value : Json}
  {nullable : Bool} {presence : Presence} {key : String} {entries : List (String × Json)}

/-- Whether a value may stand under a key, given the declared field and the type of undeclared
keys. -/
def AdmitsUnder (found : Option (Field Schema)) (additional : Option Schema) (value : Json) : Prop :=
  match found with
  | some field => field.node.admits value field.nullable .full = true
  | none => ∃ node, additional = some node ∧ node.admits value false .full = true

def Given (name : String) (field : Field Schema) (entries : List (String × Json))
    (presence : Presence) : Prop :=
  field.optional = true ∨ Keyed.has entries name = true ∨ presence = .identifier ∧ name ≠ "_id"

theorem admitsUnder_some {field : Field Schema} {additional : Option Schema} :
    AdmitsUnder (some field) additional value ↔
      field.node.admits value field.nullable .full = true :=
  Iff.rfl

theorem admitsUnder_none {additional : Option Schema} :
    AdmitsUnder none additional value ↔
      ∃ node, additional = some node ∧ node.admits value false .full = true :=
  Iff.rfl

theorem admits_unknown : unknown.admits value nullable presence = true := by
  cases value with
  | null => simp [admits, Json.conforms, unknown, admitsNull]
  | _ => rfl

theorem itemsConform_iff {items : List Json} :
    Json.itemsConform element presence items = true ↔
      ∀ item ∈ items, element.admits item false presence = true := by
  induction items with
  | nil => simp [Json.itemsConform]
  | cons item rest ih => rw [Json.itemsConform, Bool.and_eq_true, ih, List.forall_mem_cons, admits]

theorem admits_array_iff :
    (array element).admits value nullable presence = true ↔
      (value = .null ∧ nullable = true) ∨
        ∃ items, value = .array items ∧ ∀ item ∈ items, element.admits item false presence = true := by
  cases value with
  | null => simp [admits, Json.conforms, admitsNull]
  | array items => simp [admits, Json.conforms, itemsConform_iff]
  | _ => simp [admits, Json.conforms]

theorem entriesConform_cons {rest : List (String × Json)} :
    Json.entriesConform shape ((key, value) :: rest) = true ↔
      AdmitsUnder (shape.find? key) shape.additional value ∧
        Json.entriesConform shape rest = true := by
  simp only [Json.entriesConform, AdmitsUnder, Shape.child?, Shape.declared?, Shape.isNullable]
  cases shape.find? key with
  | some field => simp [admits]
  | none =>
      cases shape.additional with
      | some node => simp [admits]
      | none => simp

theorem entriesConform_iff :
    Json.entriesConform shape entries = true ↔
      ∀ entry ∈ entries, AdmitsUnder (shape.find? entry.1) shape.additional entry.2 := by
  induction entries with
  | nil => simp [Json.entriesConform]
  | cons entry rest ih => rw [entriesConform_cons, ih, List.forall_mem_cons]

theorem requiredPresent_iff (distinct : shape.names.Nodup) :
    shape.requiredPresent entries presence = true ↔
      ∀ name, ∀ field ∈ shape.find? name, Given name field entries presence := by
  have given (field : Field Schema) : Given field.name field entries presence ↔
      (field.optional || Keyed.has entries field.name ||
        (presence == .identifier && field.name != "_id")) = true := by
    simp [Given, or_assoc]
  simp only [Shape.requiredPresent, List.all_eq_true, ← given]
  constructor
  · intro each name field found
    rw [← Shape.name_of_find? found]
    exact each field (Shape.mem_of_find? found)
  · intro each field member
    exact each field.name field (Shape.find?_of_mem distinct member)

theorem admits_object_iff (distinct : shape.names.Nodup) :
    (object shape).admits value nullable presence = true ↔
      (value = .null ∧ nullable = true) ∨
        ∃ entries, value = .object entries ∧ Json.extendedKind? entries = none ∧
          (∀ entry ∈ entries, AdmitsUnder (shape.find? entry.1) shape.additional entry.2) ∧
          ∀ name, ∀ field ∈ shape.find? name, Given name field entries presence := by
  cases value with
  | null => simp [admits, Json.conforms, admitsNull]
  | object entries =>
      simp only [admits, Json.conforms, Bool.and_eq_true, entriesConform_iff,
        requiredPresent_iff distinct]
      simp [and_assoc]
  | _ => simp [admits, Json.conforms]

/-- Fields that match and equal types of undeclared keys admit the same values, if their nodes
do. -/
theorem AdmitsUnder.congr {found found' : Option (Field Schema)}
    {additional additional' : Option Schema} (admitted : AdmitsUnder found additional value)
    (same : Option.Rel Field.Matches found found')
    (open_ : Option.Rel (fun left right => left.equivalent right = true) additional additional')
    (fields : ∀ field ∈ found, ∀ field' ∈ found', field.node.equivalent field'.node = true →
      field.node.admits value field.nullable .full = true →
        field'.node.admits value field.nullable .full = true)
    (nodes : ∀ node ∈ additional, ∀ node' ∈ additional', node.equivalent node' = true →
      node.admits value false .full = true → node'.admits value false .full = true) :
    AdmitsUnder found' additional' value := by
  rcases rel_cases same with ⟨rfl, rfl⟩ | ⟨field, field', rfl, rfl, alike⟩
  · obtain ⟨node, rfl, inside⟩ := admitted
    rcases rel_cases open_ with ⟨absent, _⟩ | ⟨_, node', stated, rfl, equal⟩
    · contradiction
    · cases stated
      exact ⟨node', rfl, nodes node rfl node' rfl equal inside⟩
  · have inside := fields field rfl field' rfl alike.node admitted
    rw [alike.nullable] at inside
    exact inside

theorem admits_of_equivalent (distinct : left.NamesDistinct) (rightDistinct : right.NamesDistinct)
    (same : left.equivalent right = true) (admitted : left.admits value nullable presence = true) :
    right.admits value nullable presence = true := by
  induction distinct generalizing right value nullable presence with
  | scalar kind =>
      rw [eq_of_scalar_equivalent same]
      exact admitted
  | array _ ih =>
      obtain ⟨element, rfl, inside⟩ := exists_array_of_equivalent same
      have elementDistinct := namesDistinct_array_iff.mp rightDistinct
      rcases admits_array_iff.mp admitted with isNull | ⟨items, rfl, each⟩
      · exact admits_array_iff.mpr (.inl isNull)
      · exact admits_array_iff.mpr (.inr ⟨items, rfl, fun item member =>
          ih elementDistinct inside (each item member)⟩)
  | @object shape distinct fields additional each open_ =>
      have whole : (object shape).NamesDistinct := .object distinct fields additional
      obtain ⟨other, rfl, alike⟩ := exists_object_of_equivalent whole rightDistinct same
      obtain ⟨otherDistinct, otherFields, otherOpen⟩ := namesDistinct_object_iff.mp rightDistinct
      rcases (admits_object_iff distinct).mp admitted with
        isNull | ⟨entries, rfl, unwrapped, conform, given⟩
      · exact (admits_object_iff otherDistinct).mpr (.inl isNull)
      · refine (admits_object_iff otherDistinct).mpr (.inr ⟨entries, rfl, unwrapped, ?_, ?_⟩)
        · intro entry member
          refine (conform entry member).congr (alike.fields entry.1) alike.additional ?_ ?_
          · intro field found field' held equal inside
            exact each field (Shape.mem_of_find? found)
              (otherFields field' (Shape.mem_of_find? held)) equal inside
          · intro node stated node' held equal inside
            exact open_ node stated (otherOpen node' held) equal inside
        · intro name field' held
          rcases rel_cases (alike.fields name) with ⟨_, missing⟩ | ⟨field, _, found, stated, flags⟩
          · rw [missing] at held
            contradiction
          · cases stated.symm.trans held
            unfold Given
            rw [← flags.optional]
            exact given name field found

theorem Same.admits (same : left.Same right) :
    left.admits value nullable presence = right.admits value nullable presence := by
  have back := same.symm
  exact Bool.eq_iff_iff.mpr
    ⟨admits_of_equivalent same.distinct same.otherDistinct same.equal,
      admits_of_equivalent back.distinct back.otherDistinct back.equal⟩

/-- A value of the left schema that what it has in common with the right one refuses, because the
merge of objects in it dropped that a field admits null, or what undeclared keys hold. -/
inductive Loses : Schema → Schema → Json → Prop
  | item {left right : Schema} {items : List Json} {item : Json} (member : item ∈ items)
      (inside : Loses left right item) : Loses (array left) (array right) (.array items)
  | field {one other : Shape Schema} {entries : List (String × Json)} {key : String} {value : Json}
      {left right : Field Schema} (unequal : ¬ (object one).equivalent (object other) = true)
      (stated : (key, value) ∈ entries) (found : one.find? key = some left)
      (held : other.find? key = some right) (inside : Loses left.node right.node value) :
      Loses (object one) (object other) (.object entries)
  | null {one other : Shape Schema} {entries : List (String × Json)} {key : String}
      {left : Field Schema} (unequal : ¬ (object one).equivalent (object other) = true)
      (stated : (key, .null) ∈ entries) (found : one.find? key = some left)
      (nullable : left.nullable = true)
      (refused : ∀ merged ∈ (unifyShapes one other).find? key, merged.node.admitsNull = false) :
      Loses (object one) (object other) (.object entries)
  | undeclared {one other : Shape Schema} {entries : List (String × Json)} {key : String}
      {value : Json} {node : Schema} (unequal : ¬ (object one).equivalent (object other) = true)
      (stated : (key, value) ∈ entries) (undeclared : one.find? key = none)
      (admitted : one.additional = some node)
      (refused : ∀ merged ∈ (unifyShapes one other).find? key,
        merged.node.admits value false .full = false) :
      Loses (object one) (object other) (.object entries)

/-- Some object inside a schema is open or has a field that admits null. -/
inductive Lax : Schema → Prop
  | element {element : Schema} (inside : Lax element) : Lax (array element)
  | field {shape : Shape Schema} {field : Field Schema} (member : field ∈ shape.fields)
      (inside : Lax field.node) : Lax (object shape)
  | null {shape : Shape Schema} {field : Field Schema} (member : field ∈ shape.fields)
      (nullable : field.nullable = true) : Lax (object shape)
  | undeclared {shape : Shape Schema} {node : Schema} (admitted : shape.additional = some node) :
      Lax (object shape)

theorem Loses.lax (lost : Loses left right value) : left.Lax := by
  induction lost with
  | item _ _ ih => exact .element ih
  | field _ _ found _ _ ih => exact .field (Shape.mem_of_find? found) ih
  | null _ _ found nullable => exact .null (Shape.mem_of_find? found) nullable
  | undeclared _ _ _ admitted => exact .undeclared admitted

theorem Loses.ne_null (lost : Loses left right value) : value ≠ .null := by
  rintro rfl
  cases lost

theorem admits_of_ne_null (different : value ≠ .null) :
    left.admits value nullable presence = left.admits value false presence := by
  cases value with
  | null => contradiction
  | _ => rfl

theorem number_admits {kind : ScalarKind} (numeric : kind.isNumeric = true)
    (admitted : kind.admits value = true) : ScalarKind.number.admits value = true := by
  have int (read : value.int64?.isSome = true) : value.isNumber = true := by
    cases value <;> simp_all [Json.int64?, Json.isNumber, Json.number?]
  have nat (read : value.uint64?.isSome = true) : value.isNumber = true := by
    cases value <;> simp_all [Json.uint64?, Json.isNumber, Json.number?]
  cases kind with
  | int =>
      simp only [ScalarKind.admits, Bool.or_eq_true, Option.any_eq_true, beq_iff_eq] at admitted ⊢
      rcases admitted with ⟨read, held, _⟩ | wrapped
      · exact .inl (int (by simp [held]))
      · exact .inr ⟨.int, wrapped, rfl⟩
  | long =>
      simp only [ScalarKind.admits, Bool.or_eq_true, Option.any_eq_true, beq_iff_eq] at admitted ⊢
      rcases admitted with ((read | read) | wrapped) | wrapped
      · exact .inl (int read)
      · exact .inl (nat read)
      · exact .inr ⟨.int, wrapped, rfl⟩
      · exact .inr ⟨.long, wrapped, rfl⟩
  | double => exact admitted
  | decimal => exact admitted
  | number => exact admitted
  | _ => contradiction

theorem admits_join {one other : ScalarKind}
    (admitted : (scalar one).admits value nullable presence = true) :
    (scalar (one.join other)).admits value nullable presence = true := by
  unfold ScalarKind.join
  split
  · exact admitted
  · split
    · rename_i numeric
      have oneNumeric := (Bool.and_eq_true_iff.mp numeric).1
      cases value with
      | null =>
          simp only [admits, Json.conforms, Bool.or_eq_true] at admitted ⊢
          refine admitted.imp_right fun isNull => ?_
          cases one <;> contradiction
      | _ => exact number_admits oneNumeric admitted
    · exact admits_unknown

theorem admits_optional {field : Field Schema}
    (admitted : field.node.admits value field.nullable .full = true) :
    field.node.admits value false .full = true ∨ value = .null ∧ field.nullable = true := by
  cases value with
  | null =>
      simp only [admits, Json.conforms, Bool.or_eq_true, Bool.false_or, true_and] at admitted ⊢
      exact admitted.symm
  | _ => exact .inl admitted

theorem exists_merged (other : Shape Schema) {field : Field Schema}
    (found : one.find? key = some field) :
    ∃ merged, (unifyShapes one other).find? key = some merged ∧ merged.nullable = false := by
  cases held : (unifyShapes one other).find? key with
  | none =>
      rw [find?_unifyShapes, found] at held
      cases counterpart : other.find? key <;> simp [counterpart, mergedLookup] at held
  | some merged => exact ⟨merged, rfl, unifyShapes_plain.fields key merged held⟩

/-- The fields of two objects have in common, name by name, what the left ones admit, unless it is
lost. -/
def FieldsKeep (one other : Shape Schema) : Prop :=
  ∀ name, ∀ field ∈ one.find? name, ∀ counterpart ∈ other.find? name, ∀ value,
    field.node.admits value false .full = true →
      ((field.node.unify counterpart.node).admits value false .full = true ↔
        ¬ Loses field.node counterpart.node value)

/-- What is admitted under a key of the left object is admitted there by the merge, unless it is
lost. -/
theorem admitsUnder_merged (unequal : ¬ (object one).equivalent (object other) = true)
    (inner : FieldsKeep one other) (stated : (key, value) ∈ entries)
    (conform : AdmitsUnder (one.find? key) one.additional value)
    (kept : ¬ Loses (object one) (object other) (.object entries)) :
    AdmitsUnder ((unifyShapes one other).find? key) none value := by
  cases found : one.find? key with
  | none =>
      rw [found] at conform
      obtain ⟨node, additional, _⟩ := conform
      by_contra refused
      refine kept (.undeclared unequal stated found additional fun merged held => ?_)
      rw [Option.mem_def.mp held] at refused
      simpa [admitsUnder_some, unifyShapes_plain.fields key merged held] using refused
  | some field =>
      obtain ⟨merged, held, nullable⟩ := exists_merged other found
      rw [found] at conform
      rw [held, admitsUnder_some, nullable]
      rcases admits_optional conform with admitted | ⟨rfl, allowed⟩
      · rw [find?_unifyShapes, found] at held
        cases counterpart : other.find? key with
        | none =>
            rw [counterpart] at held
            cases held
            exact admitted
        | some right =>
            rw [counterpart] at held
            cases held
            refine (inner key field found right counterpart value admitted).mpr fun lost => ?_
            exact kept (.field unequal stated found counterpart lost)
      · by_contra refused
        refine kept (.null unequal stated found allowed fun other again => ?_)
        cases held.symm.trans again
        simpa [admits, Json.conforms] using refused

/-- What is lost under a key is not admitted there by the merge. -/
theorem not_loses_of_merged (inner : FieldsKeep one other)
    (conform : ∀ entry ∈ entries, AdmitsUnder (one.find? entry.1) one.additional entry.2)
    (merged : ∀ entry ∈ entries, AdmitsUnder ((unifyShapes one other).find? entry.1) none entry.2) :
    ¬ Loses (object one) (object other) (.object entries) := by
  intro lost
  cases lost with
  | field _ stated found held inside =>
      have here := merged _ stated
      have before := conform _ stated
      simp only [find?_unifyShapes, found, held] at here before
      rw [AdmitsUnder, admits_of_ne_null inside.ne_null] at before
      exact (inner _ _ found _ held _ before).mp here inside
  | null _ stated found _ refused =>
      obtain ⟨field, held, nullable⟩ := exists_merged other found
      have here := merged _ stated
      simp only [held, admitsUnder_some, nullable, admits, Json.conforms, Bool.false_or,
        refused field held] at here
      contradiction
  | @undeclared _ _ _ key value _ _ stated _ _ refused =>
      have here := merged _ stated
      cases held : (unifyShapes one other).find? key with
      | none =>
          simp only [held, admitsUnder_none] at here
          obtain ⟨_, absent, _⟩ := here
          contradiction
      | some field =>
          have nullable := unifyShapes_plain.fields key field held
          simp only [held, admitsUnder_some, nullable, refused field held] at here
          contradiction

/-- A merge asks for no field that the left object does not ask for. -/
theorem given_merged
    (given : ∀ name, ∀ field ∈ one.find? name, Given name field entries presence) :
    ∀ name, ∀ merged ∈ (unifyShapes one other).find? name, Given name merged entries presence := by
  intro name merged held
  rw [find?_unifyShapes] at held
  cases found : one.find? name with
  | none =>
      rw [found] at held
      cases counterpart : other.find? name with
      | none =>
          rw [counterpart] at held
          contradiction
      | some right =>
          rw [counterpart] at held
          cases held
          exact .inl rfl
  | some left =>
      rw [found] at held
      cases counterpart : other.find? name with
      | none =>
          rw [counterpart] at held
          cases held
          exact .inl rfl
      | some right =>
          rw [counterpart] at held
          cases held
          refine (given name left found).imp_left fun optional => ?_
          simp [mergedField, optional]

/-- The merge of objects that differ admits the values of the left one, those apart that are lost. -/
theorem merged_admits_iff (distinct : (object one).NamesDistinct)
    (otherDistinct : (object other).NamesDistinct)
    (unequal : ¬ (object one).equivalent (object other) = true) (inner : FieldsKeep one other)
    (admitted : (object one).admits value nullable presence = true) :
    (object (unifyShapes one other)).admits value nullable presence = true ↔
      ¬ Loses (object one) (object other) value := by
  have names := (namesDistinct_object_iff.mp distinct).1
  have mergedNames :=
    (namesDistinct_object_iff.mp (unifyShapes_namesDistinct distinct otherDistinct)).1
  rw [admits_object_iff mergedNames, additional_unifyShapes]
  rcases (admits_object_iff names).mp admitted with
    isNull | ⟨entries, rfl, unwrapped, conform, given⟩
  · exact iff_of_true (.inl isNull) fun lost => lost.ne_null isNull.1
  · constructor
    · rintro (⟨isNull, _⟩ | ⟨_, same, _, merged, _⟩)
      · contradiction
      · cases same
        exact not_loses_of_merged inner conform merged
    · intro kept
      refine .inr ⟨entries, rfl, unwrapped, fun entry stated => ?_, given_merged given⟩
      exact admitsUnder_merged unequal inner stated (conform entry stated) kept

theorem unify_admits_iff_left (distinct : left.NamesDistinct)
    (rightDistinct : right.NamesDistinct)
    (admitted : left.admits value nullable presence = true) :
    (left.unify right).admits value nullable presence = true ↔ ¬ Loses left right value := by
  induction left, right, distinct, rightDistinct using namesDistinct_pairs
    generalizing value nullable presence with
  | mixed left right distinct rightDistinct different =>
      rw [unify_of_form_ne different]
      refine iff_of_true admits_unknown fun lost => ?_
      cases lost <;> exact different rfl
  | scalar left right =>
      rw [unify_scalar]
      exact iff_of_true (admits_join admitted) (by rintro ⟨⟩)
  | array left right distinct rightDistinct ih =>
      rw [unify_array]
      rcases admits_array_iff.mp admitted with ⟨rfl, allowed⟩ | ⟨items, rfl, each⟩
      · exact iff_of_true (admits_array_iff.mpr (.inl ⟨rfl, allowed⟩)) fun lost => lost.ne_null rfl
      · rw [admits_array_iff]
        constructor
        · rintro (⟨isNull, _⟩ | ⟨_, same, joined⟩) lost
          · contradiction
          · cases same
            cases lost with
            | item member inside => exact (ih (each _ member)).mp (joined _ member) inside
        · intro kept
          refine .inr ⟨items, rfl, fun item member => (ih (each item member)).mpr fun lost => ?_⟩
          exact kept (.item member lost)
  | object one other distinct otherDistinct each =>
      by_cases equal : (object one).equivalent (object other) = true
      · rw [unify_of_equivalent equal]
        refine iff_of_true admitted fun lost => ?_
        cases lost with
        | field unequal => exact unequal equal
        | null unequal => exact unequal equal
        | undeclared unequal => exact unequal equal
      · rw [unify_object_of_ne equal]
        refine merged_admits_iff distinct otherDistinct equal ?_ admitted
        exact fun name field found counterpart held value inside =>
          each name field found counterpart held inside

/-- The common schema of two schemas admits the values of both, those apart that merging objects
loses.  A value can only be lost where an object of its own schema is open or has a field that
admits null. -/
theorem unify_admits_iff (distinct : left.NamesDistinct) (rightDistinct : right.NamesDistinct) :
    (left.admits value nullable presence = true →
      ((left.unify right).admits value nullable presence = true ↔ ¬ Loses left right value)) ∧
    (right.admits value nullable presence = true →
      ((left.unify right).admits value nullable presence = true ↔ ¬ Loses right left value)) ∧
    (Loses left right value → left.Lax) ∧ (Loses right left value → right.Lax) := by
  refine ⟨unify_admits_iff_left distinct rightDistinct, fun admitted => ?_, Loses.lax, Loses.lax⟩
  rw [(unify_comm distinct rightDistinct).admits]
  exact unify_admits_iff_left rightDistinct distinct admitted

def ranked : Schema := object ⟨[⟨"rank", scalar .int, false, true⟩], none⟩

def strictlyRanked : Schema := object ⟨[⟨"rank", scalar .int, false, false⟩], none⟩

theorem strictlyRanked_not_lax : ¬ strictlyRanked.Lax := by
  intro lax
  cases lax with
  | field member inside =>
      obtain rfl := List.mem_singleton.mp member
      cases inside
  | null member nullable =>
      obtain rfl := List.mem_singleton.mp member
      contradiction
  | undeclared admitted => contradiction

theorem unify_admits_iff_ranked :
    ranked.admits (.object [("rank", .null)]) false .full = true ∧
      (ranked.unify strictlyRanked).admits (.object [("rank", .null)]) false .full = false ∧
      (ranked.unify strictlyRanked).admits (.object [("rank", .ofInt 3)]) false .full = true := by
  have distinct : ranked.NamesDistinct := .object (by decide) (by simp) (by simp)
  have strictDistinct : strictlyRanked.NamesDistinct := .object (by decide) (by simp) (by simp)
  have admitted : ranked.admits (.object [("rank", .null)]) false .full = true := by decide
  have strictAdmitted : strictlyRanked.admits (.object [("rank", .ofInt 3)]) false .full = true := by
    decide
  have lost : Loses ranked strictlyRanked (.object [("rank", .null)]) :=
    .null (by decide) List.mem_cons_self rfl rfl (by decide)
  refine ⟨admitted, ?_, ?_⟩
  · have refused := mt ((unify_admits_iff distinct strictDistinct).1 admitted).mp (not_not.mpr lost)
    exact Bool.eq_false_iff.mpr refused
  · refine ((unify_admits_iff distinct strictDistinct).2.1 strictAdmitted).mpr fun lost => ?_
    exact strictlyRanked_not_lax lost.lax

end Schema

end DocTyping
