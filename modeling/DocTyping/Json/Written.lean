import DocTyping.Json.Basic
import DocTyping.Json.Token

namespace DocTyping.Json

/-!
# Written documents

The tree of a JSON text before its strings and numerals are evaluated.  A text
is read with a stack of open brackets, so nesting costs no recursion.
`Written.value?` evaluates the tree; it fails on a surrogate without its
partner, on a numeral beyond the finite range and on nesting deeper than asked
for.  Repeated keys are still there afterwards.
-/

inductive Written where
  | null
  | bool (value : Bool)
  | numeral (value : Numeral)
  /-- A string; `none` when a surrogate in it has no partner. -/
  | string (content : Option String)
  | array (items : List Written)
  | object (entries : List (Option String × Written))
deriving Inhabited

namespace Numeral

/-- Digits that fit an unsigned 64-bit integer, and how many digits were dropped after them.
A digit is dropped from the first one on that would exceed it. -/
def accumulate (start : Nat) : List Nat → Nat × List Nat
  | [] => (start, [])
  | digit :: rest =>
    if start * 10 + digit ≤ Number.uint64Max.toNat then accumulate (start * 10 + digit) rest
    else (start, digit :: rest)

/-- The largest exponent that is counted out. -/
def exponentLimit : Nat := 2147483647

def countExponent (digits : List Nat) : Option Nat :=
  digits.foldl (fun total digit => do
    let total ← total
    let next := total * 10 + digit
    if next ≤ exponentLimit then some next else none) (some 0)

def clampExponent (exponent : Int) : Int :=
  if exponent > exponentLimit then exponentLimit
  else if exponent < -(exponentLimit : Int) - 1 then -(exponentLimit : Int) - 1
  else exponent

/-- The binary64 of a numeral: as many leading digits as fit 64 bits, scaled by one power of
ten. -/
def real? (numeral : Numeral) : Option Binary64 :=
  let (whole, dropped) := accumulate 0 numeral.whole
  let (significand, kept) :=
    match numeral.fraction with
    | none => (whole, 0)
    | some digits =>
      let (significand, rest) := accumulate whole digits
      (significand, digits.length - rest.length)
  let scale : Int := (dropped.length : Int) - kept
  match numeral.exponent with
  | none => Binary64.ofScientific? numeral.negative significand scale
  | some (negative, digits) =>
    match countExponent digits with
    | some exponent =>
      let exponent := if negative then scale - exponent else scale + exponent
      Binary64.ofScientific? numeral.negative significand (clampExponent exponent)
    | none =>
      if significand ≠ 0 ∧ ¬ negative then none else some ⟨numeral.negative, 0⟩

/-- The number a numeral denotes.  Without point and exponent it is an integer when it fits 64
bits, except that minus zero is a binary64. -/
def value? (numeral : Numeral) : Option Number :=
  let magnitude : Nat := numeral.whole.foldl (fun total digit => total * 10 + digit) 0
  let integer : Int := if numeral.negative then -(magnitude : Int) else magnitude
  let fits := Number.int64Min ≤ integer ∧ integer ≤ Number.uint64Max
  let minusZero := numeral.negative ∧ magnitude = 0
  if numeral.fraction.isNone ∧ numeral.exponent.isNone ∧ fits ∧ ¬ minusZero then
    some (.integer integer)
  else numeral.real?.map .real

end Numeral

namespace Written

/-- An open bracket with what has been read inside it. -/
inductive Frame where
  /-- The items so far, last first. -/
  | array (items : List Written)
  /-- The entries so far, last first, and the key whose value is due. -/
  | object (entries : List (Option String × Written)) (key : Option String)

inductive Expectation where
  | value
  /-- A value, or the end of the array just opened. -/
  | valueOrClose
  | key
  /-- A key, or the end of the object just opened. -/
  | keyOrClose
  | colon
  /-- A comma or a closing bracket; at the outside, the end. -/
  | separator

/-- A reader: what it expects, the brackets open around it, and the finished text. -/
structure Reader where
  expects : Expectation
  frames : List Frame
  finished : Option Written

namespace Reader

def start : Reader := ⟨.value, [], none⟩

def place (value : Written) : List Frame → Reader
  | [] => ⟨.separator, [], some value⟩
  | .array items :: outer => ⟨.separator, .array (value :: items) :: outer, none⟩
  | .object entries key :: outer =>
    ⟨.separator, .object ((key, value) :: entries) key :: outer, none⟩

def readValue (frames : List Frame) : Token → Option Reader
  | .openArray => some ⟨.valueOrClose, .array [] :: frames, none⟩
  | .openObject => some ⟨.keyOrClose, .object [] none :: frames, none⟩
  | .null => some (place .null frames)
  | .bool value => some (place (.bool value) frames)
  | .string content => some (place (.string content) frames)
  | .numeral value => some (place (.numeral value) frames)
  | _ => none

def readKey : List Frame → Token → Option Reader
  | .object entries _ :: outer, .string content =>
    some ⟨.colon, .object entries content :: outer, none⟩
  | _, _ => none

def close : List Frame → Token → Option Reader
  | .array items :: outer, .closeArray => some (place (.array items.reverse) outer)
  | .object entries _ :: outer, .closeObject => some (place (.object entries.reverse) outer)
  | _, _ => none

def readSeparator : List Frame → Token → Option Reader
  | .array items :: outer, .comma => some ⟨.value, .array items :: outer, none⟩
  | .object entries key :: outer, .comma => some ⟨.key, .object entries key :: outer, none⟩
  | frames, token => close frames token

def step (reader : Reader) (token : Token) : Option Reader :=
  match reader.expects, token with
  | .value, token => readValue reader.frames token
  | .valueOrClose, .closeArray => close reader.frames .closeArray
  | .valueOrClose, token => readValue reader.frames token
  | .key, token => readKey reader.frames token
  | .keyOrClose, .closeObject => close reader.frames .closeObject
  | .keyOrClose, token => readKey reader.frames token
  | .colon, .colon => some ⟨.value, reader.frames, none⟩
  | .colon, _ => none
  | .separator, token => readSeparator reader.frames token

end Reader

def read? (text : String) : Option Written := do
  let tokens ← Token.scan text
  let reader ← tokens.foldlM Reader.step Reader.start
  reader.finished

def nestingLimit : Nat := 127

mutual

/-- Evaluates a written document whose brackets nest at most `depth` deep. -/
def value? (depth : Nat) : Written → Option Json
  | .null => some .null
  | .bool value => some (.bool value)
  | .numeral value => value.value?.map .number
  | .string content => content.map .string
  | .array items =>
    match depth with
    | 0 => none
    | depth + 1 => (itemValues? depth items).map .array
  | .object entries =>
    match depth with
    | 0 => none
    | depth + 1 => (entryValues? depth entries).map .object
termination_by structural written => written

def itemValues? (depth : Nat) : List Written → Option (List Json)
  | [] => some []
  | item :: rest =>
    match value? depth item, itemValues? depth rest with
    | some value, some values => some (value :: values)
    | _, _ => none
termination_by structural items => items

def entryValues? (depth : Nat) : List (Option String × Written) → Option (List (String × Json))
  | [] => some []
  | (key, item) :: rest =>
    match key, value? depth item, entryValues? depth rest with
    | some key, some value, some values => some ((key, value) :: values)
    | _, _, _ => none
termination_by structural entries => entries

end

mutual

def nesting : Written → Nat
  | .array items => itemNesting items + 1
  | .object entries => entryNesting entries + 1
  | _ => 0
termination_by structural written => written

def itemNesting : List Written → Nat
  | [] => 0
  | item :: rest => max (nesting item) (itemNesting rest)
termination_by structural items => items

def entryNesting : List (Option String × Written) → Nat
  | [] => 0
  | (_, item) :: rest => max (nesting item) (entryNesting rest)
termination_by structural entries => entries

end

end Written

/-- Reads a text as a value that may repeat keys; nesting is limited. -/
def readRepeated? (text : String) : Option Json := do
  let written ← Written.read? text
  written.value? Written.nestingLimit

/-- Reads a text as a value in which each key occurs once; nesting is limited. -/
def read? (text : String) : Option Json := (readRepeated? text).map mergeRepeated

/-- Reads a text as a value in which each key occurs once, however deep it nests. -/
def readUnbounded? (text : String) : Option Json := do
  let written ← Written.read? text
  let value ← written.value? written.nesting
  return value.mergeRepeated

end DocTyping.Json
