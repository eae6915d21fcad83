import DocTyping.Json.Binary64

namespace DocTyping.Binary64

/-!
# Shortest decimal text

A number is written with the fewest decimal digits that read back to it, and
among those the closest.  The reals that round to a number form an interval
around it; for each count of digits only the two neighbours of the number on
that decimal grid have to be looked at.
-/

/-- A positive decimal `digits * 10^exponent`. -/
structure Decimal where
  digits : Nat
  exponent : Int
deriving DecidableEq, Repr

/-- A positive magnitude with the interval of reals that round to it, all in quarter units. -/
structure Interval where
  lower : Nat
  centre : Nat
  upper : Nat
  closed : Bool

/-- The interval around a magnitude.  Below a power of two the neighbours are twice as dense. -/
def interval (units : Nat) : Interval :=
  let step := spacing units
  let below := if units = Nat.pow 2 units.log2 ∧ 1 < step then step else 2 * step
  { lower := 4 * units - below
    centre := 4 * units
    upper := 4 * units + 2 * step
    closed := units / step % 2 == 0 }

/-- One quarter unit is `2^-1076`. -/
def quarterUnit : Nat := Nat.pow 2 (unitExponent + 2)

/-- Compares `candidate * 10^exponent` with a count of quarter units. -/
def compareScaled (candidate : Nat) (exponent : Int) (quarters : Nat) : Ordering :=
  if 0 ≤ exponent then compare (candidate * Nat.pow 10 exponent.toNat * quarterUnit) quarters
  else compare (candidate * quarterUnit) (quarters * Nat.pow 10 (-exponent).toNat)

/-- Whether a decimal reads back as the number the interval belongs to. -/
def Interval.holds (range : Interval) (candidate : Nat) (exponent : Int) : Bool :=
  let low := compareScaled candidate exponent range.lower
  let high := compareScaled candidate exponent range.upper
  if range.closed then low != .lt && high != .gt else low == .gt && high == .lt

def Interval.floor (range : Interval) (exponent : Int) : Nat :=
  if 0 ≤ exponent then range.centre / (quarterUnit * Nat.pow 10 exponent.toNat)
  else range.centre * Nat.pow 10 (-exponent).toNat / quarterUnit

/-- Whether the grid point above `candidate` is nearer to the centre than `candidate` is, a
tie going to the even digit. -/
def Interval.prefersNext (range : Interval) (candidate : Nat) (exponent : Int) : Bool :=
  match compareScaled (2 * candidate + 1) exponent (2 * range.centre) with
  | .lt => true
  | .eq => candidate % 2 == 1
  | .gt => false

/-- The grid point in the interval nearest to the centre, if the grid has one there. -/
def Interval.onGrid (range : Interval) (exponent : Int) : Option Decimal :=
  let low := range.floor exponent
  let below := range.holds low exponent && low != 0
  let above := range.holds (low + 1) exponent
  if below && above then
    some ⟨if range.prefersNext low exponent then low + 1 else low, exponent⟩
  else if below then some ⟨low, exponent⟩
  else if above then some ⟨low + 1, exponent⟩
  else none

/-- The number of decimal digits before the point of a magnitude, less one; negative for
fractions. -/
def decimalExponent (units : Nat) : Int :=
  let ones := units / Nat.pow 2 unitExponent
  if ones ≠ 0 then ((toString ones).length : Int) - 1
  else -((toString (Nat.pow 2 unitExponent / units)).length : Int)

/-- Tries grids from coarse to fine. -/
def searchGrids (range : Interval) (exponent : Int) : Nat → Decimal
  | 0 => ⟨range.floor exponent, exponent⟩
  | finer + 1 =>
    match range.onGrid exponent with
    | some found => found
    | none => searchGrids range (exponent - 1) finer

/-- The shortest decimal that reads back as a positive magnitude. -/
def shortest (units : Nat) : Decimal :=
  searchGrids (interval units) (decimalExponent units + 1) 20

/-- The layout of a number: where positional notation ends and how an exponent is marked. -/
structure Layout where
  /-- The largest count of digits before the point that is written positionally. -/
  wholeDigits : Int
  /-- Zeros after the point that are still written positionally. -/
  leadingZeros : Int
  exponentMark : String

/-- Positional from `10^-5` up to below `10^16`, always with a point or an exponent. -/
def jsonLayout : Layout := ⟨16, 4, "e"⟩

def zeros (count : Nat) : String := String.ofList (List.replicate count '0')

def Decimal.render (value : Decimal) (layout : Layout) : String :=
  let digits := toString value.digits
  let count : Int := digits.length
  let point := count + value.exponent
  if 0 ≤ value.exponent ∧ point ≤ layout.wholeDigits then
    digits ++ zeros value.exponent.toNat ++ ".0"
  else if 0 < point ∧ point ≤ layout.wholeDigits then
    (digits.take point.toNat).toString ++ "." ++ (digits.drop point.toNat).toString
  else if -layout.leadingZeros ≤ point ∧ point ≤ 0 then
    "0." ++ zeros (-point).toNat ++ digits
  else
    let fraction := (digits.drop 1).toString
    let mantissa := (digits.take 1).toString ++ if fraction.isEmpty then "" else "." ++ fraction
    mantissa ++ layout.exponentMark ++ toString (point - 1)

/-- Drops zeros at the end of the digits, which a coarser grid may leave. -/
def Decimal.trimmed (value : Decimal) : Nat → Decimal
  | 0 => value
  | count + 1 =>
    if value.digits % 10 = 0 ∧ value.digits ≠ 0 then
      Decimal.trimmed ⟨value.digits / 10, value.exponent + 1⟩ count
    else value

def render (number : Binary64) : String :=
  let sign := if number.negative then "-" else ""
  if number.units = 0 then sign ++ "0.0"
  else sign ++ ((shortest number.units).trimmed 20).render jsonLayout

end DocTyping.Binary64
