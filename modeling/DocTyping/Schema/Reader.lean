import DocTyping.Schema.Description

namespace DocTyping.Description

/-!
# Reading descriptions

A description is an object with a `type`, or a list that gives the type first
and its parts in order.  Keys that a type does not use are ignored, keys that it
uses may not be repeated.  Inside another description a type may also be given
by its number.
-/

inductive Tag where
  | scalar (kind : ScalarKind)
  | object
  | array
deriving DecidableEq, Repr, Inhabited

namespace Tag

def named? (name : String) : Option Tag :=
  match name with
  | "object" => some .object
  | "array" => some .array
  | "any" => some (.scalar .unknown)
  | name => (ScalarKind.all.find? fun kind => kind.name == name).map .scalar

/-- The tags in the order of their numbers. -/
def numbered : List Tag := ScalarKind.all.map .scalar ++ [.object, .array]

/-- Reads a tag.  Numbers are accepted inside other descriptions only. -/
def read? (inner : Bool) : Json → Option Tag
  | .string name => named? name
  | .number value => if inner then value.uint64?.bind fun index => numbered[index]? else none
  | _ => none

end Tag

def occurrences (entries : List (String × Json)) (key : String) : Nat :=
  entries.countP fun entry => entry.1 == key

/-- The tag of an object form, which names its type once. -/
def tagOf? (inner : Bool) (entries : List (String × Json)) : Option Tag :=
  if occurrences entries "type" = 1 then
    (entries.lookup "type").bind (Tag.read? inner)
  else none

/-- A presence flag: false when absent, and refused when repeated or no Boolean. -/
def flag? (entries : List (String × Json)) (key : String) : Option Bool :=
  match occurrences entries key with
  | 0 => some false
  | 1 => (entries.lookup key).bind Json.bool?
  | _ => none

/-- One field per name: the last description wins and the first position is kept. -/
def distinctFields (fields : List (Field Description)) : List (Field Description) :=
  fields.foldl Shape.putField []

/-- The parts that a description may have, as far as they can be read. -/
structure Parts where
  items : Option Description
  fields : Option (List (Field Description))
  additional : Option (Option Description)

namespace Parts

def absent : Parts := ⟨none, some [], some none⟩

/-- Puts the parts that a tag uses together; those it does not use may be anything. -/
def assemble (parts : Parts) : Tag → Option Description
  | .scalar kind => some (.scalar kind)
  | .array => parts.items.map .array
  | .object => do
    let fields ← parts.fields
    let additional ← parts.additional
    return .object ⟨fields, additional⟩

end Parts

def Tag.partKeys : Tag → List String
  | .scalar _ => []
  | .array => ["items"]
  | .object => ["fields", "additional"]

/-- Assembles an object form.  The keys of the parts in use may not be repeated. -/
def assembleEntries (inner : Bool) (entries : List (String × Json)) (parts : Parts) :
    Option Description :=
  match tagOf? inner entries with
  | some tag =>
    if tag.partKeys.all fun key => occurrences entries key ≤ 1 then parts.assemble tag else none
  | none => none

mutual

def read? (inner : Bool) : Json → Option Description
  | .object entries => assembleEntries inner entries (readParts entries)
  | .array (tag :: parts) =>
    match Tag.read? inner tag, parts with
    | some tag@(.scalar _), [] => Parts.absent.assemble tag
    | some .array, [items] => (read? true items).map .array
    | some .object, [] => Parts.absent.assemble .object
    | some .object, [fields] =>
      { Parts.absent with fields := readFields? fields }.assemble .object
    | some .object, [fields, additional] =>
      let additional := if additional.isNull then some none else (read? true additional).map some
      Parts.assemble ⟨none, readFields? fields, additional⟩ .object
    | _, _ => none
  | _ => none
termination_by structural value => value

def readParts : List (String × Json) → Parts
  | [] => .absent
  | (key, value) :: rest =>
    let parts := readParts rest
    if key = "items" then { parts with items := read? true value }
    else if key = "fields" then { parts with fields := readFields? value }
    else if key = "additional" then
      { parts with additional := if value.isNull then some none else (read? true value).map some }
    else parts
termination_by structural entries => entries

def readFields? : Json → Option (List (Field Description))
  | .object entries => (readEachField? entries).map distinctFields
  | _ => none
termination_by structural value => value

def readEachField? : List (String × Json) → Option (List (Field Description))
  | [] => some []
  | (name, value) :: rest =>
    match readField? name value, readEachField? rest with
    | some field, some fields => some (field :: fields)
    | _, _ => none
termination_by structural entries => entries

def readField? (name : String) : Json → Option (Field Description)
  | .object entries => do
    let node ← assembleEntries true entries (readParts entries)
    let optional ← flag? entries "optional"
    let nullable ← flag? entries "nullable"
    return ⟨name, node, optional, nullable⟩
  | _ => none
termination_by structural value => value

end

end DocTyping.Description
