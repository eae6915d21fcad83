import DocTyping.Keyed
import DocTyping.Json.Binary64

namespace DocTyping

/-!
# JSON documents

A document keeps its keys in the order written.  Numbers keep their kind: an
integer of 64 bits, signed or unsigned, stays an integer, and every other
number is a binary64.
-/

/-- A JSON number.  Integers lie in `-2^63 .. 2^64 - 1`. -/
inductive Number where
  | integer (value : Int)
  | real (value : Binary64)
deriving DecidableEq, Repr, Inhabited

/-- A JSON value.  The entries of an object are in the order written. -/
inductive Json where
  | null
  | bool (value : Bool)
  | number (value : Number)
  | string (text : String)
  | array (items : List Json)
  | object (entries : List (String × Json))
deriving Repr, Inhabited

namespace Number

def int64Min : Int := -9223372036854775808

def int64Max : Int := 9223372036854775807

def uint64Max : Int := 18446744073709551615

def int64? : Number → Option Int
  | .integer value => if int64Min ≤ value ∧ value ≤ int64Max then some value else none
  | .real _ => none

def uint64? : Number → Option Nat
  | .integer value => if 0 ≤ value ∧ value ≤ uint64Max then some value.toNat else none
  | .real _ => none

def toBinary64 : Number → Binary64
  | .integer value => Binary64.ofInt value
  | .real value => value

end Number

abbrev Entries := Keyed Json

namespace Json

def string? : Json → Option String
  | string text => some text
  | _ => none

def array? : Json → Option (List Json)
  | array items => some items
  | _ => none

def object? : Json → Option Entries
  | object entries => some entries
  | _ => none

def bool? : Json → Option Bool
  | bool value => some value
  | _ => none

def number? : Json → Option Number
  | number value => some value
  | _ => none

def int64? (value : Json) : Option Int := value.number?.bind Number.int64?

def uint64? (value : Json) : Option Nat := value.number?.bind Number.uint64?

def isNull : Json → Bool
  | null => true
  | _ => false

def isString (value : Json) : Bool := value.string?.isSome

def isNumber (value : Json) : Bool := value.number?.isSome

def ofInt (value : Int) : Json := number (.integer value)

def keys (value : Json) : List String := Keyed.names (value.object?.getD [])

mutual

/-- Merges repeated keys everywhere: the last value wins and the key keeps its first position. -/
def mergeRepeated : Json → Json
  | array items => array (mergeItems items)
  | object entries => object (mergeEntries entries [])
  | other => other
termination_by structural value => value

def mergeItems : List Json → List Json
  | [] => []
  | item :: rest => mergeRepeated item :: mergeItems rest
termination_by structural items => items

/-- Writes the entries one after the other onto those already merged. -/
def mergeEntries : List (String × Json) → Entries → Entries
  | [], merged => merged
  | (key, value) :: rest, merged => mergeEntries rest (merged.put key (mergeRepeated value))
termination_by structural entries => entries

end

end Json

end DocTyping
