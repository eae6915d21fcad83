namespace DocTyping

/-!
# Keyed sequences

Entries under names, in a fixed order.  Writing a name that is already there
keeps its position, so the order is that of the first writes.
-/

/-- Values under names, in order. -/
abbrev Keyed (α : Type) := List (String × α)

namespace Keyed

variable {α : Type}

def get? (entries : Keyed α) (name : String) : Option α := entries.lookup name

def has (entries : Keyed α) (name : String) : Bool := entries.any fun entry => entry.1 == name

def names (entries : Keyed α) : List String := entries.map Prod.fst

/-- Writes a value: a name that occurs keeps its position, a new one goes to the end. -/
def put : Keyed α → String → α → Keyed α
  | [], name, value => [(name, value)]
  | (held, old) :: rest, name, value =>
    if held = name then (held, value) :: rest else (held, old) :: put rest name value

def putAll (entries : Keyed α) (added : List (String × α)) : Keyed α :=
  added.foldl (fun entries entry => entries.put entry.1 entry.2) entries

/-- A sequence with one entry per name: the last value wins and the first position is kept. -/
def ofList (entries : List (String × α)) : Keyed α := putAll [] entries

end Keyed

end DocTyping
