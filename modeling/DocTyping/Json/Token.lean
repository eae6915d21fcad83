namespace DocTyping.Json

/-!
# Tokens of a JSON text

The scanner splits a text into brackets, separators, strings, numerals and the
three words.  A string keeps the fact that it holds a surrogate without its
partner, and a numeral keeps its digits, so that a reader may skip both without
evaluating them.
-/

structure Numeral where
  negative : Bool
  whole : List Nat
  /-- The digits after the point; `none` without a point. -/
  fraction : Option (List Nat)
  /-- The digits of the exponent, and whether it is negative; `none` without an exponent. -/
  exponent : Option (Bool × List Nat)
deriving DecidableEq, Repr

inductive Token where
  | openArray
  | closeArray
  | openObject
  | closeObject
  | comma
  | colon
  | null
  | bool (value : Bool)
  /-- A string; `none` when a surrogate in it has no partner. -/
  | string (content : Option String)
  | numeral (value : Numeral)
deriving DecidableEq, Repr

namespace Token

def isSeparator (char : Char) : Bool :=
  char == ' ' || char == '\t' || char == '\n' || char == '\r'

def hexDigit? (char : Char) : Option Nat :=
  if '0' ≤ char ∧ char ≤ '9' then some (char.toNat - '0'.toNat)
  else if 'a' ≤ char ∧ char ≤ 'f' then some (char.toNat - 'a'.toNat + 10)
  else if 'A' ≤ char ∧ char ≤ 'F' then some (char.toNat - 'A'.toNat + 10)
  else none

def hexUnit? (a b c d : Char) : Option Nat := do
  let a ← hexDigit? a
  let b ← hexDigit? b
  let c ← hexDigit? c
  let d ← hexDigit? d
  return ((a * 16 + b) * 16 + c) * 16 + d

def escapeLetter? : Char → Option Char
  | '"' => some '"'
  | '\\' => some '\\'
  | '/' => some '/'
  | 'b' => some '\x08'
  | 'f' => some '\x0c'
  | 'n' => some '\n'
  | 'r' => some '\r'
  | 't' => some '\t'
  | _ => none

/-- A piece of a string: a character, or one UTF-16 unit of a surrogate pair. -/
inductive Piece where
  | char (value : Char)
  | highSurrogate (unit : Nat)
  | lowSurrogate (unit : Nat)

def Piece.ofUnit (unit : Nat) : Piece :=
  if 0xD800 ≤ unit ∧ unit < 0xDC00 then .highSurrogate unit
  else if 0xDC00 ≤ unit ∧ unit < 0xE000 then .lowSurrogate unit
  else .char (Char.ofNat unit)

/-- Joins surrogate pairs; `none` when a surrogate has no partner. -/
def joinPieces : List Piece → Option (List Char)
  | [] => some []
  | .char value :: rest => (joinPieces rest).map (value :: ·)
  | .highSurrogate high :: .lowSurrogate low :: rest =>
    (joinPieces rest).map (Char.ofNat (0x10000 + (high - 0xD800) * 0x400 + (low - 0xDC00)) :: ·)
  | .highSurrogate _ :: _ => none
  | .lowSurrogate _ :: _ => none

/-- The pieces of a string up to its closing quote, and the text after it. -/
def scanString : List Char → Option (List Piece × List Char)
  | '"' :: rest => some ([], rest)
  | '\\' :: 'u' :: a :: b :: c :: d :: rest => do
    let unit ← hexUnit? a b c d
    let (pieces, after) ← scanString rest
    return (.ofUnit unit :: pieces, after)
  | '\\' :: letter :: rest => do
    let char ← escapeLetter? letter
    let (pieces, after) ← scanString rest
    return (.char char :: pieces, after)
  | char :: rest =>
    if char.toNat < 0x20 ∨ char = '\\' then none
    else do
      let (pieces, after) ← scanString rest
      return (.char char :: pieces, after)
  | [] => none

def scanDigits : List Char → List Nat × List Char
  | [] => ([], [])
  | char :: rest =>
    if char.isDigit then
      let (digits, after) := scanDigits rest
      ((char.toNat - '0'.toNat) :: digits, after)
    else ([], char :: rest)

/-- At least one digit, and no zero in front of another digit. -/
def scanWhole (text : List Char) : Option (List Nat × List Char) :=
  match scanDigits text with
  | ([], _) => none
  | (0 :: _ :: _, _) => none
  | found => some found

def scanFraction : List Char → Option (Option (List Nat) × List Char)
  | '.' :: rest =>
    match scanDigits rest with
    | ([], _) => none
    | (digits, after) => some (some digits, after)
  | text => some (none, text)

def scanSign : List Char → Bool × List Char
  | '-' :: rest => (true, rest)
  | '+' :: rest => (false, rest)
  | text => (false, text)

def scanExponent : List Char → Option (Option (Bool × List Nat) × List Char)
  | [] => some (none, [])
  | mark :: rest =>
    if mark = 'e' ∨ mark = 'E' then
      let (negative, digits) := scanSign rest
      match scanDigits digits with
      | ([], _) => none
      | (digits, after) => some (some (negative, digits), after)
    else some (none, mark :: rest)

def scanNumeral (negative : Bool) (text : List Char) : Option (Numeral × List Char) := do
  let (whole, afterWhole) ← scanWhole text
  let (fraction, afterFraction) ← scanFraction afterWhole
  let (exponent, after) ← scanExponent afterFraction
  return (⟨negative, whole, fraction, exponent⟩, after)

/-- The token at the start of a text that does not start with a separator, and the text
after it. -/
def scanToken? : List Char → Option (Token × List Char)
  | '[' :: rest => some (.openArray, rest)
  | ']' :: rest => some (.closeArray, rest)
  | '\x7b' :: rest => some (.openObject, rest)
  | '\x7d' :: rest => some (.closeObject, rest)
  | ',' :: rest => some (.comma, rest)
  | ':' :: rest => some (.colon, rest)
  | 'n' :: 'u' :: 'l' :: 'l' :: rest => some (.null, rest)
  | 't' :: 'r' :: 'u' :: 'e' :: rest => some (.bool true, rest)
  | 'f' :: 'a' :: 'l' :: 's' :: 'e' :: rest => some (.bool false, rest)
  | '"' :: rest => do
    let (pieces, after) ← scanString rest
    return (.string ((joinPieces pieces).map String.ofList), after)
  | '-' :: rest => do
    let (value, after) ← scanNumeral true rest
    return (.numeral value, after)
  | text => do
    let (value, after) ← scanNumeral false text
    return (.numeral value, after)

/-- Scans tokens until the text ends; `none` where no token starts.  Each token takes at least
one character, so a budget of the text's length suffices. -/
def scanAll : Nat → List Char → List Token → Option (List Token)
  | _, [], found => some found.reverse
  | 0, _ :: _, _ => none
  | budget + 1, char :: rest, found =>
    if isSeparator char then scanAll budget rest found
    else do
      let (token, after) ← scanToken? (char :: rest)
      scanAll budget after (token :: found)

def scan (text : String) : Option (List Token) := scanAll text.length text.toList []

end Token

end DocTyping.Json
