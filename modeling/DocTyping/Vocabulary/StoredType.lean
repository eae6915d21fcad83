import DocTyping.Json.Basic
import DocTyping.Schema.Basic

namespace DocTyping.StoredType

/-!
# Stored types

The aliases and codes by which a filter names the type of a stored value.
-/

def table : List (String × Int) :=
  [("double", 1), ("string", 2), ("object", 3), ("array", 4), ("binData", 5), ("undefined", 6),
    ("objectId", 7), ("bool", 8), ("date", 9), ("null", 10), ("regex", 11), ("dbPointer", 12),
    ("javascript", 13), ("symbol", 14), ("javascriptWithScope", 15), ("int", 16),
    ("timestamp", 17), ("long", 18), ("decimal", 19), ("minKey", -1), ("maxKey", 127)]

/-- The alias of all numeric types together; it has no code. -/
def numberAlias : String := "number"

def isAlias (text : String) : Bool :=
  text == numberAlias || table.any fun entry => entry.1 == text

def isCode (code : Int) : Bool := table.any fun entry => entry.2 == code

def aliasOf? (code : Int) : Option String :=
  (table.find? fun entry => entry.2 == code).map Prod.fst

def scalar? (text : String) : Option ScalarKind :=
  if text = "unknown" then none else ScalarKind.all.find? fun kind => kind.name == text

def isSingle : Json → Bool
  | .string text => isAlias text
  | .number value => value.int64?.any isCode
  | _ => false

/-- Whether a value names stored types: an alias, a code, or a list of them. -/
def isSpec : Json → Bool
  | .array items => !items.isEmpty && items.all isSingle
  | value => isSingle value

end DocTyping.StoredType
