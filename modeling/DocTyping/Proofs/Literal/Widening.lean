import DocTyping.Proofs.Literal.Admission
import Mathlib.Logic.Relation

namespace DocTyping

/-!
# Wider schemas

A schema is widened by one change at some place in it: a numeric kind gives way to a wider
one, a subtree to the opaque schema, a field may be absent or hold null, a closed object
gets one more optional field or is opened.  Whatever a schema admits is admitted after the
change.
-/

/-- A kind gives way to one of more numbers. -/
inductive ScalarKind.Widens : ScalarKind → ScalarKind → Prop
  | long : Widens int long
  | number {kind : ScalarKind} (numeric : kind.isNumeric = true) : Widens kind number

namespace Schema

/-- One change that widens a schema, at any depth. -/
inductive Widens : Schema → Schema → Prop
  | kind {one other : ScalarKind} (wider : one.Widens other) : Widens (scalar one) (scalar other)
  | unknown (schema : Schema) : Widens schema unknown
  | element {left right : Schema} (inside : Widens left right) : Widens (array left) (array right)
  | field (before after : List (Field Schema)) (additional : Option Schema) (name : String)
      (optional nullable : Bool) {left right : Schema} (inside : Widens left right) :
      Widens (object ⟨before ++ ⟨name, left, optional, nullable⟩ :: after, additional⟩)
        (object ⟨before ++ ⟨name, right, optional, nullable⟩ :: after, additional⟩)
  | optional (before after : List (Field Schema)) (additional : Option Schema) (name : String)
      (node : Schema) (nullable : Bool) :
      Widens (object ⟨before ++ ⟨name, node, false, nullable⟩ :: after, additional⟩)
        (object ⟨before ++ ⟨name, node, true, nullable⟩ :: after, additional⟩)
  | nullable (before after : List (Field Schema)) (additional : Option Schema) (name : String)
      (node : Schema) (optional : Bool) :
      Widens (object ⟨before ++ ⟨name, node, optional, false⟩ :: after, additional⟩)
        (object ⟨before ++ ⟨name, node, optional, true⟩ :: after, additional⟩)
  | undeclared (fields : List (Field Schema)) {left right : Schema} (inside : Widens left right) :
      Widens (object ⟨fields, some left⟩) (object ⟨fields, some right⟩)
  | declared (before after : List (Field Schema)) {name : String} (node : Schema) (nullable : Bool)
      (new : name ∉ Shape.names ⟨before ++ after, none⟩) :
      Widens (object ⟨before ++ after, none⟩)
        (object ⟨before ++ ⟨name, node, true, nullable⟩ :: after, none⟩)
  | opened (fields : List (Field Schema)) (node : Schema) :
      Widens (object ⟨fields, none⟩) (object ⟨fields, some node⟩)

/-- Every value that one schema admits is admitted by the other one, under the same flag and with
the same fields given. -/
def Below (left right : Schema) : Prop :=
  ∀ value nullable presence, left.admits value nullable presence = true →
    right.admits value nullable presence = true

variable {left right element : Schema} {one other shape : Shape Schema} {value : Json}
  {nullable : Bool} {presence : Presence} {key : String} {entries : List (String × Json)}
  {before after : List (Field Schema)} {additional : Option Schema} {field wider : Field Schema}

theorem Below.refl (schema : Schema) : schema.Below schema := fun _ _ _ admitted => admitted

theorem Below.trans {third : Schema} (first : left.Below right) (second : right.Below third) :
    left.Below third :=
  fun value nullable presence admitted =>
    second value nullable presence (first value nullable presence admitted)

theorem long_admits (admitted : ScalarKind.int.admits value = true) :
    ScalarKind.long.admits value = true := by
  simp only [ScalarKind.admits, Bool.or_eq_true, Option.any_eq_true] at admitted ⊢
  rcases admitted with ⟨integer, read, _⟩ | wrapped
  · exact .inl (.inl (.inl (by simp [read])))
  · exact .inl (.inr wrapped)

theorem below_scalar {one other : ScalarKind} (strict : (scalar one).admitsNull = false)
    (values : ∀ value, one.admits value = true → other.admits value = true) :
    (scalar one).Below (scalar other) := by
  intro value nullable presence admitted
  cases value with
  | null =>
      simp only [admits, Json.conforms, strict, Bool.or_false] at admitted ⊢
      simp [admitted]
  | _ => exact values _ admitted

theorem below_kind {one other : ScalarKind} (wider : one.Widens other) :
    (scalar one).Below (scalar other) := by
  cases wider with
  | long => exact below_scalar rfl fun _ => long_admits
  | number numeric =>
      refine below_scalar ?_ fun _ => number_admits numeric
      cases one <;> first | rfl | contradiction

theorem below_array (inside : left.Below right) : (array left).Below (array right) := by
  intro value nullable presence admitted
  rcases admits_array_iff.mp admitted with isNull | ⟨items, rfl, each⟩
  · exact admits_array_iff.mpr (.inl isNull)
  · exact admits_array_iff.mpr (.inr ⟨items, rfl, fun item member =>
      inside item false presence (each item member)⟩)

/-- An object admits what another one admits if it admits as much under each key and asks for no
more fields. -/
theorem below_object
    (under : ∀ key value, AdmitsUnder (one.find? key) one.additional value →
      AdmitsUnder (other.find? key) other.additional value)
    (given : ∀ entries presence, one.requiredPresent entries presence = true →
      other.requiredPresent entries presence = true) : (object one).Below (object other) := by
  intro value nullable presence admitted
  cases value with
  | object entries =>
      simp only [admits, Json.conforms, Bool.and_eq_true, entriesConform_iff] at admitted ⊢
      obtain ⟨⟨unwrapped, conform⟩, present⟩ := admitted
      exact ⟨⟨unwrapped, fun entry member => under _ _ (conform entry member)⟩,
        given entries presence present⟩
  | null => exact admitted
  | _ => contradiction

theorem find?_between (field : Field Schema) :
    Shape.find? ⟨before ++ field :: after, additional⟩ key =
      ((before.find? fun field => field.name == key).or
        (if field.name = key then some field
          else after.find? fun field => field.name == key)) := by
  rw [Shape.find?, List.find?_append]
  by_cases same : field.name = key
  · rw [List.find?_cons_of_pos (by simpa using same), if_pos same]
  · rw [List.find?_cons_of_neg (by simpa using same), if_neg same]

/-- A field may be changed to one of its name that admits more and need not be given more often. -/
theorem below_object_of_field (named : field.name = wider.name)
    (optional : field.optional = true → wider.optional = true)
    (inside : ∀ value, field.node.admits value field.nullable .full = true →
      wider.node.admits value wider.nullable .full = true) :
    (object ⟨before ++ field :: after, additional⟩).Below
      (object ⟨before ++ wider :: after, additional⟩) := by
  refine below_object (fun key value => ?_) fun entries presence => ?_
  · rw [find?_between, find?_between, named]
    cases before.find? fun field => field.name == key with
    | some earlier => exact id
    | none =>
        rw [Option.none_or, Option.none_or]
        split
        · exact inside value
        · exact id
  · simp only [Shape.requiredPresent, List.all_append, List.all_cons, Bool.and_eq_true, named]
    intro given
    obtain ⟨first, here, rest⟩ := given
    refine ⟨first, ?_, rest⟩
    simp only [Bool.or_eq_true] at here ⊢
    exact here.imp_left (Or.imp_left optional)

theorem admits_nullable (admitted : left.admits value false presence = true) :
    left.admits value true presence = true := by
  cases value with
  | null => rfl
  | _ => exact admitted

theorem below_opened {fields : List (Field Schema)} {left : Option Schema} {right : Schema}
    (inside : ∀ node ∈ left, node.Below right) :
    (object ⟨fields, left⟩).Below (object ⟨fields, some right⟩) := by
  refine below_object (fun key value => ?_) fun _ _ => id
  change AdmitsUnder (Shape.find? ⟨fields, left⟩ key) left value →
    AdmitsUnder (Shape.find? ⟨fields, left⟩ key) (some right) value
  cases Shape.find? ⟨fields, left⟩ key with
  | some field => exact id
  | none =>
      intro undeclared
      obtain ⟨node, stated, admitted⟩ := undeclared
      exact ⟨right, rfl, inside node stated value false .full admitted⟩

/-- A closed object refuses a value under a name that it does not declare, so that a new field may
admit anything there. -/
theorem below_declared {name : String} {node : Schema}
    (new : name ∉ Shape.names ⟨before ++ after, none⟩) :
    (object ⟨before ++ after, none⟩).Below
      (object ⟨before ++ ⟨name, node, true, nullable⟩ :: after, none⟩) := by
  refine below_object (fun key value => ?_) fun entries presence => ?_
  · cases found : Shape.find? ⟨before ++ after, none⟩ key with
    | none =>
        intro undeclared
        obtain ⟨_, absent, _⟩ := undeclared
        contradiction
    | some field =>
        have different : name ≠ key := by
          rintro rfl
          exact new (Shape.mem_names_of_find? found)
        rw [Shape.find?, List.find?_append] at found
        rw [find?_between, if_neg different, found]
        exact id
  · simp [Shape.requiredPresent]

theorem below_of_widens (widens : left.Widens right) : left.Below right := by
  induction widens with
  | kind wider => exact below_kind wider
  | unknown => exact fun _ _ _ _ => admits_unknown
  | element _ ih => exact below_array ih
  | field _ _ _ _ _ _ _ ih => exact below_object_of_field rfl id fun value => ih value _ .full
  | optional => exact below_object_of_field rfl (fun _ => rfl) fun _ => id
  | nullable => exact below_object_of_field rfl id fun _ => admits_nullable
  | undeclared _ _ ih => exact below_opened (by simpa using ih)
  | declared _ _ _ _ new => exact below_declared new
  | opened => exact below_opened (by simp)

theorem below_of_widened (widened : Relation.ReflTransGen Widens left right) :
    left.Below right := by
  induction widened with
  | refl => exact .refl left
  | tail _ last ih => exact ih.trans (below_of_widens last)

theorem requiredPresent_of_full (given : shape.requiredPresent entries .full = true) :
    shape.requiredPresent entries presence = true := by
  simp only [Shape.requiredPresent, List.all_eq_true, Bool.or_eq_true] at given ⊢
  intro field member
  rcases given field member with named | partly
  · exact .inl named
  · simp at partly

theorem admits_of_full : ∀ (schema : Schema) {value : Json} {nullable : Bool},
    schema.admits value nullable .full = true → schema.admits value nullable presence = true
  | scalar kind, value, nullable, admitted => by
      cases value <;> exact admitted
  | array element, value, nullable, admitted => by
      rcases admits_array_iff.mp admitted with isNull | ⟨items, rfl, each⟩
      · exact admits_array_iff.mpr (.inl isNull)
      · exact admits_array_iff.mpr (.inr ⟨items, rfl, fun item member =>
          admits_of_full element (each item member)⟩)
  | object shape, value, nullable, admitted => by
      cases value with
      | object entries =>
          simp only [admits, Json.conforms, Bool.and_eq_true] at admitted ⊢
          exact ⟨admitted.1, requiredPresent_of_full admitted.2⟩
      | null => exact admitted
      | _ => contradiction

end Schema

end DocTyping
