namespace DocTyping

/-!
# Finite binary64 numbers

Every finite binary64 value is a whole multiple of the least positive one,
`2^-1074`.  `Binary64` keeps that multiple, so comparing two numbers is
comparing two integers, and rounding is division of natural numbers: the
quotient is kept to 53 significant bits, and a tie goes to the even neighbour.
-/

/-- A finite binary64 number: a sign and a magnitude counted in units of `2^-1074`. -/
structure Binary64 where
  negative : Bool
  units : Nat
deriving DecidableEq, Repr, Inhabited

namespace Binary64

/-- The exponent of the unit: `2^1074` units make one. -/
def unitExponent : Nat := 1074

def precision : Nat := 53

/-- The first magnitude that is too large to be finite, in units. -/
def overflowUnits : Nat := Nat.pow 2 (1024 + unitExponent)

/-- The distance, in units, between neighbours at a magnitude. -/
def spacing (units : Nat) : Nat := Nat.pow 2 (units.log2 + 1 - precision)

/-- The units of the number nearest to `numerator / denominator`, a tie going to the even
neighbour. -/
def roundedUnits (numerator denominator : Nat) : Nat :=
  let scaled := numerator * Nat.pow 2 unitExponent
  let step := spacing (scaled / denominator)
  let quotient := scaled / (denominator * step)
  let twice := 2 * (scaled % (denominator * step))
  let nearest :=
    if twice > denominator * step ∨ (twice = denominator * step ∧ quotient % 2 = 1) then
      quotient + 1
    else quotient
  nearest * step

/-- The number nearest to a signed ratio; `none` when it is beyond the finite range. -/
def ofRatio? (negative : Bool) (numerator denominator : Nat) : Option Binary64 :=
  let units := roundedUnits numerator denominator
  if units < overflowUnits then some ⟨negative, units⟩ else none

/-- The number nearest to an integer of at most 64 bits, which is always finite. -/
def ofInt (value : Int) : Binary64 :=
  ⟨decide (value < 0), roundedUnits value.natAbs 1⟩

def tenTo (exponent : Nat) : Binary64 := ⟨false, roundedUnits (Nat.pow 10 exponent) 1⟩

def mul? (left right : Binary64) : Option Binary64 :=
  ofRatio? (left.negative != right.negative) (left.units * right.units)
    (Nat.pow 2 (2 * unitExponent))

def div? (left right : Binary64) : Option Binary64 :=
  ofRatio? (left.negative != right.negative) left.units right.units

/-- The value in units, with its sign.  Both zeros count as zero. -/
def signedUnits (number : Binary64) : Int :=
  if number.negative then -(number.units : Int) else number.units

def lt (left right : Binary64) : Bool := left.signedUnits < right.signedUnits

def isZero (number : Binary64) : Bool := number.units == 0

/-- The largest power of ten that scaling uses in one step. -/
def largestPower : Nat := 308

/-- A whole significand scaled by a power of ten.  The significand is rounded first and the
result of each scaling is rounded again; a power below `10^-308` takes two divisions.  `none`
when the result is beyond the finite range. -/
def ofScientific? (negative : Bool) (significand : Nat) (exponent : Int) : Option Binary64 :=
  let start : Binary64 := ⟨negative, roundedUnits significand 1⟩
  if significand = 0 then some start
  else if 0 ≤ exponent then
    if exponent ≤ largestPower then start.mul? (tenTo exponent.toNat) else none
  else
    let places := (-exponent).toNat
    if places ≤ largestPower then start.div? (tenTo places)
    else if places ≤ 2 * largestPower then do
      let scaled ← start.div? (tenTo largestPower)
      scaled.div? (tenTo (places - largestPower))
    else some ⟨negative, 0⟩

end Binary64

end DocTyping
