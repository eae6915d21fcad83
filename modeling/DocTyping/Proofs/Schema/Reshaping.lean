import DocTyping.Proofs.Schema.NamesFit
import DocTyping.Schema.Reshape

namespace DocTyping.Schema

/-!
# Changes at a place

Writing, removing and unwinding below an object leave an object, and leave the
names of every object inside fitting together.
-/

variable {schema value : Schema} {names : List String} {slot : Slot} {change : Schema → Schema}

theorem isObject_iff : schema.isObject = true ↔ ∃ shape, schema = object shape := by
  cases schema with
  | object shape => simp [isObject, shape?]
  | _ => simp [isObject, shape?]

theorem setPath_isObject (named : names ≠ []) (isObject : schema.isObject = true) :
    (setPath value slot names schema).isObject = true := by
  obtain ⟨shape, rfl⟩ := isObject_iff.mp isObject
  match names with
  | [_] => rfl
  | _ :: _ :: _ => rfl

theorem removePath_isObject (isObject : schema.isObject = true) :
    (removePath names schema).isObject = true := by
  obtain ⟨shape, rfl⟩ := isObject_iff.mp isObject
  match names with
  | [] => rfl
  | [_] => rfl
  | name :: _ :: _ =>
      simp only [removePath, underArrays]
      split <;> rfl

theorem unwindPath_isObject (named : names ≠ []) (isObject : schema.isObject = true) :
    (unwindPath slot names schema).isObject = true := by
  obtain ⟨shape, rfl⟩ := isObject_iff.mp isObject
  match names with
  | name :: rest =>
      simp only [unwindPath, underArrays]
      split <;> rfl

section Names

variable {fits : List String → Prop} (rule : NameRule fits) {shape : Shape Schema} {name : String}
  {field : Field Schema}

theorem underArrays_namesFit (each : ∀ node, node.NamesFit fits → (change node).NamesFit fits)
    (fit : schema.NamesFit fits) : (underArrays change schema).NamesFit fits := by
  induction fit with
  | scalar kind => exact each _ (.scalar kind)
  | array _ ih => exact .array ih
  | object names fields additional => exact each _ (.object names fields additional)

include rule

theorem put_namesFit (fit : (object shape).NamesFit fits) (named : fits [field.name])
    (inside : field.node.NamesFit fits) : (object (shape.put field)).NamesFit fits := by
  obtain ⟨names, fields, additional⟩ := namesFit_object_iff.mp fit
  refine .object (rule.putField names named) (fun held member => ?_) additional
  rcases Shape.mem_putField member with kept | rfl
  · exact fields held kept
  · exact inside

theorem remove_namesFit (fit : (object shape).NamesFit fits) :
    (object (shape.remove name)).NamesFit fits := by
  obtain ⟨names, fields, additional⟩ := namesFit_object_iff.mp fit
  refine .object (rule.fewer (List.eraseP_sublist.map _) names) (fun held member => ?_) additional
  exact fields held (List.mem_of_mem_eraseP member)

theorem shapeOrEmpty_namesFit (fit : schema.NamesFit fits) :
    (object schema.shapeOrEmpty).NamesFit fits := by
  cases fit with
  | object names fields additional => exact .object names fields additional
  | _ => exact empty_namesFit rule

theorem setPath_namesFit (valueFit : value.NamesFit fits) (each : ∀ name ∈ names, fits [name])
    (fit : schema.NamesFit fits) : (setPath value slot names schema).NamesFit fits := by
  induction names generalizing schema with
  | nil => exact valueFit
  | cons name rest ih =>
      obtain ⟨named, later⟩ := List.forall_mem_cons.mp each
      cases rest with
      | nil =>
          refine underArrays_namesFit (fun node nodeFit => ?_) fit
          exact put_namesFit rule (shapeOrEmpty_namesFit rule nodeFit) named valueFit
      | cons =>
          refine underArrays_namesFit (fun node nodeFit => ?_) fit
          have object := shapeOrEmpty_namesFit rule nodeFit
          refine put_namesFit rule object named (ih later ?_)
          cases found : node.shapeOrEmpty.child? name with
          | none => exact empty_namesFit rule
          | some child => exact object.child found

theorem removePath_namesFit (fit : schema.NamesFit fits) :
    (removePath names schema).NamesFit fits := by
  induction names generalizing schema with
  | nil => exact fit
  | cons name rest ih =>
      cases rest with
      | nil =>
          refine underArrays_namesFit (fun node nodeFit => ?_) fit
          cases node with
          | object shape => exact remove_namesFit rule nodeFit
          | _ => exact nodeFit
      | cons =>
          refine underArrays_namesFit (fun node nodeFit => ?_) fit
          cases node with
          | object shape =>
              obtain ⟨declared, fields, _⟩ := namesFit_object_iff.mp nodeFit
              dsimp only
              split
              · rename_i field found
                have member := List.mem_of_find?_eq_some found
                have named := rule.single declared (List.mem_map_of_mem member)
                exact put_namesFit rule nodeFit named (ih (fields field member))
              · exact nodeFit
          | _ => exact nodeFit

theorem unwindPath_namesFit (each : ∀ name ∈ names, fits [name]) (fit : schema.NamesFit fits) :
    (unwindPath slot names schema).NamesFit fits := by
  induction names generalizing schema with
  | nil =>
      cases fit with
      | array inside => exact inside
      | scalar kind => exact .scalar kind
      | object names fields additional => exact .object names fields additional
  | cons name rest ih =>
      obtain ⟨named, later⟩ := List.forall_mem_cons.mp each
      refine underArrays_namesFit (fun node nodeFit => ?_) fit
      cases node with
      | object shape =>
          dsimp only
          split
          · rename_i child found
            exact put_namesFit rule nodeFit named (ih later (nodeFit.child found))
          · exact nodeFit
      | _ => exact nodeFit

end Names

end DocTyping.Schema
