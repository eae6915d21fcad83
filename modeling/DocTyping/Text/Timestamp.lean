namespace DocTyping.Text

/-!
# Internet timestamps

A date, a time of day and an offset from universal time, such as
`2024-02-29T23:59:60.5+01:00`.  Only ASCII digits count.
-/

def digit? (char : Char) : Option Nat :=
  if char.isDigit then some (char.toNat - '0'.toNat) else none

/-- A number of exactly `count` digits, and the text after it. -/
def fixedDigits? : Nat → Nat → List Char → Option (Nat × List Char)
  | 0, value, text => some (value, text)
  | count + 1, value, char :: rest => do
    let digit ← digit? char
    fixedDigits? count (value * 10 + digit) rest
  | _ + 1, _, [] => none

def bounded? (count least most : Nat) (text : List Char) : Option (Nat × List Char) := do
  let (value, rest) ← fixedDigits? count 0 text
  if least ≤ value ∧ value ≤ most then some (value, rest) else none

def afterOneOf? (accepted : List Char) : List Char → Option (List Char)
  | char :: rest => if accepted.contains char then some rest else none
  | [] => none

def isLeapYear (year : Nat) : Bool :=
  year % 4 == 0 && (year % 100 != 0 || year % 400 == 0)

def daysInMonth (year month : Nat) : Nat :=
  if month = 2 then if isLeapYear year then 29 else 28
  else if month = 4 ∨ month = 6 ∨ month = 9 ∨ month = 11 then 30
  else 31

def afterDate? (text : List Char) : Option (List Char) := do
  let (year, rest) ← bounded? 4 0 9999 text
  let rest ← afterOneOf? ['-'] rest
  let (month, rest) ← bounded? 2 1 12 rest
  let rest ← afterOneOf? ['-'] rest
  let (_, rest) ← bounded? 2 1 (daysInMonth year month) rest
  return rest

def afterFraction? : List Char → Option (List Char)
  | '.' :: rest =>
    match rest with
    | char :: _ => if char.isDigit then some (rest.dropWhile Char.isDigit) else none
    | [] => none
  | text => some text

/-- The text after a time of day.  A leap second may end any minute. -/
def afterTime? (text : List Char) : Option (List Char) := do
  let (_, rest) ← bounded? 2 0 23 text
  let rest ← afterOneOf? [':'] rest
  let (_, rest) ← bounded? 2 0 59 rest
  let rest ← afterOneOf? [':'] rest
  let (_, rest) ← bounded? 2 0 60 rest
  afterFraction? rest

/-- The text after an offset: `Z`, or a sign (the minus sign U+2212 included) with hours and
minutes. -/
def afterOffset? (text : List Char) : Option (List Char) :=
  match afterOneOf? ['Z', 'z'] text with
  | some rest => some rest
  | none => do
    let rest ← afterOneOf? ['+', '-', '\u2212'] text
    let (_, rest) ← bounded? 2 0 23 rest
    let rest ← afterOneOf? [':'] rest
    let (_, rest) ← bounded? 2 0 59 rest
    return rest

def isTimestamp (text : String) : Bool :=
  let rest := do
    let rest ← afterDate? text.toList
    let rest ← afterOneOf? ['T', 't', ' '] rest
    let rest ← afterTime? rest
    afterOffset? rest
  rest == some []

end DocTyping.Text
