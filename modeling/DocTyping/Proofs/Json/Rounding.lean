import DocTyping.Json.Binary64
import Mathlib.Algebra.Order.Ring.Int
import Mathlib.Data.Nat.Log

namespace DocTyping.Binary64

/-!
# Rounded integers

Rounding an integer to the nearest binary64 keeps the order of integers: it never turns two of
them round, but it may merge them.  It merges none whose magnitude has at most 53 significant bits.
-/

variable {step magnitude former latter number : Nat} {first second : Int}

/-- The multiple of a step that is nearest to a magnitude, a tie going to the even one. -/
def nearestMultiple (step magnitude : Nat) : Nat :=
  let quotient := magnitude / step
  let twice := 2 * (magnitude % step)
  let nearest :=
    if twice > step ∨ (twice = step ∧ quotient % 2 = 1) then quotient + 1 else quotient
  nearest * step

theorem nearestMultiple_of_dvd (positive : 0 < step) (whole : step ∣ magnitude) :
    nearestMultiple step magnitude = magnitude := by
  have rest : magnitude % step = 0 := Nat.mod_eq_zero_of_dvd whole
  have down : ¬ (2 * (magnitude % step) > step ∨
      (2 * (magnitude % step) = step ∧ magnitude / step % 2 = 1)) := by omega
  rw [nearestMultiple, if_neg down]
  exact Nat.div_mul_cancel whole

theorem nearestMultiple_mono (le : former ≤ latter) :
    nearestMultiple step former ≤ nearestMultiple step latter := by
  apply Nat.mul_le_mul_right
  have quotients : former / step ≤ latter / step := Nat.div_le_div_right le
  rcases Nat.lt_or_eq_of_le quotients with apart | same
  · split <;> split <;> omega
  · -- with one quotient the remainders are in order, and so is the side that each is rounded to
    have formerParts := Nat.div_add_mod former step
    have latterParts := Nat.div_add_mod latter step
    rw [same] at formerParts ⊢
    split <;> split <;> omega

theorem spacing_pos : 0 < spacing magnitude := Nat.two_pow_pos _

theorem spacing_dvd_pow {exponent : Nat} (small : magnitude.log2 + 1 ≤ exponent + precision) :
    spacing magnitude ∣ 2 ^ exponent := by
  apply Nat.pow_dvd_pow
  omega

theorem spacing_dvd_scaled {exponent : Nat} (small : number ≤ 2 ^ precision) :
    spacing (number * 2 ^ exponent) ∣ number * 2 ^ exponent := by
  rcases Nat.lt_or_eq_of_le small with less | rfl
  · apply Nat.dvd_mul_left_of_dvd
    apply spacing_dvd_pow
    by_cases zero : number = 0
    · rw [zero, Nat.zero_mul, Nat.log2_zero, precision]
      omega
    · have nonzero : number * 2 ^ exponent ≠ 0 :=
        Nat.mul_ne_zero zero (Nat.two_pow_pos _).ne'
      rw [Nat.add_comm exponent, Nat.succ_le_iff, Nat.log2_lt nonzero, Nat.pow_add]
      exact Nat.mul_lt_mul_of_pos_right less (Nat.two_pow_pos _)
  · rw [← Nat.pow_add]
    apply spacing_dvd_pow
    rw [Nat.log2_two_pow, precision]
    omega

/-- Rounding to 53 significant bits keeps the order of magnitudes. -/
theorem nearestMultiple_spacing_mono (le : former ≤ latter) :
    nearestMultiple (spacing former) former ≤ nearestMultiple (spacing latter) latter := by
  by_cases same : former.log2 = latter.log2
  · have spaced : spacing former = spacing latter := by rw [spacing, spacing, same]
    rw [spaced]
    exact nearestMultiple_mono le
  · -- the power of two below the larger magnitude lies between them, and is rounded to itself
    have logs : former.log2 < latter.log2 := by
      have ordered : former.log2 ≤ latter.log2 := by
        rw [Nat.log2_eq_log_two, Nat.log2_eq_log_two]
        exact Nat.log_mono_right le
      exact Nat.lt_of_le_of_ne ordered same
    have nonzero : latter ≠ 0 := by
      intro zero
      subst zero
      simp at logs
    have below : former ≤ 2 ^ latter.log2 :=
      Nat.le_of_lt (Nat.lt_log2_self.trans_le (Nat.pow_le_pow_right Nat.two_pos logs))
    have above : 2 ^ latter.log2 ≤ latter := Nat.log2_self_le nonzero
    have formerWhole : spacing former ∣ 2 ^ latter.log2 :=
      spacing_dvd_pow (by simp only [precision]; omega)
    have latterWhole : spacing latter ∣ 2 ^ latter.log2 :=
      spacing_dvd_pow (by simp only [precision]; omega)
    calc nearestMultiple (spacing former) former
      _ ≤ nearestMultiple (spacing former) (2 ^ latter.log2) := nearestMultiple_mono below
      _ = 2 ^ latter.log2 := nearestMultiple_of_dvd spacing_pos formerWhole
      _ = nearestMultiple (spacing latter) (2 ^ latter.log2) :=
        (nearestMultiple_of_dvd spacing_pos latterWhole).symm
      _ ≤ nearestMultiple (spacing latter) latter := nearestMultiple_mono above

/-! ### Integers -/

theorem roundedUnits_one : roundedUnits number 1 =
    nearestMultiple (spacing (number * 2 ^ unitExponent)) (number * 2 ^ unitExponent) := by
  simp only [roundedUnits, nearestMultiple, Nat.pow_eq, Nat.div_one, Nat.one_mul]

theorem roundedUnits_mono (le : former ≤ latter) :
    roundedUnits former 1 ≤ roundedUnits latter 1 := by
  rw [roundedUnits_one, roundedUnits_one]
  exact nearestMultiple_spacing_mono (Nat.mul_le_mul_right _ le)

/-- Magnitudes of at most 53 significant bits are exact. -/
theorem roundedUnits_exact (small : number ≤ 2 ^ precision) :
    roundedUnits number 1 = number * 2 ^ unitExponent := by
  rw [roundedUnits_one]
  exact nearestMultiple_of_dvd spacing_pos (spacing_dvd_scaled small)

theorem roundedUnits_pos (positive : 0 < number) : 0 < roundedUnits number 1 := by
  have one : roundedUnits 1 1 = 1 * 2 ^ unitExponent := roundedUnits_exact Nat.one_le_two_pow
  have least : roundedUnits 1 1 ≤ roundedUnits number 1 := roundedUnits_mono positive
  have unit : 0 < 1 * 2 ^ unitExponent := Nat.mul_pos Nat.one_pos (Nat.two_pow_pos _)
  omega

theorem signedUnits_ofInt : (ofInt first).signedUnits =
    if first < 0 then -(roundedUnits first.natAbs 1 : Int) else roundedUnits first.natAbs 1 := by
  simp [signedUnits, ofInt]

/-- Rounding keeps the order of integers. -/
theorem signedUnits_ofInt_mono (le : first ≤ second) :
    (ofInt first).signedUnits ≤ (ofInt second).signedUnits := by
  rw [signedUnits_ofInt, signedUnits_ofInt]
  split
  · rename_i firstNegative
    split
    · rename_i secondNegative
      have reversed : second.natAbs ≤ first.natAbs := by omega
      have units := roundedUnits_mono reversed
      omega
    · omega
  · rename_i firstPositive
    have ordered : first.natAbs ≤ second.natAbs := by omega
    have units := roundedUnits_mono ordered
    rw [if_neg (by omega)]
    omega

theorem ofInt_eq_iff :
    ofInt first = ofInt second ↔ (ofInt first).signedUnits = (ofInt second).signedUnits := by
  refine ⟨congrArg signedUnits, ?_⟩
  intro same
  have positive : ∀ number : Int, number < 0 → 0 < roundedUnits number.natAbs 1 := by
    intro number negative
    apply roundedUnits_pos
    omega
  have firstPositive := positive first
  have secondPositive := positive second
  rw [signedUnits_ofInt, signedUnits_ofInt] at same
  have signs : first < 0 ↔ second < 0 := by
    split at same <;> split at same <;> omega
  have units : roundedUnits first.natAbs 1 = roundedUnits second.natAbs 1 := by
    split at same <;> split at same <;> omega
  simp only [ofInt, signs, units]

/-- Rounded integers are in order exactly if the integers are, and are not merged. -/
theorem ofInt_lt_ofInt_iff :
    (ofInt first).lt (ofInt second) = true ↔ first < second ∧ ofInt first ≠ ofInt second := by
  rw [lt, decide_eq_true_eq, Ne, ofInt_eq_iff]
  constructor
  · intro ordered
    refine ⟨?_, ordered.ne⟩
    by_contra reversed
    have turned := signedUnits_ofInt_mono (Int.not_lt.mp reversed)
    omega
  · intro ordered
    obtain ⟨less, apart⟩ := ordered
    have kept := signedUnits_ofInt_mono less.le
    omega

theorem signedUnits_ofInt_exact (small : first.natAbs ≤ 2 ^ precision) :
    (ofInt first).signedUnits = first * 2 ^ unitExponent := by
  rw [signedUnits_ofInt, roundedUnits_exact small, Int.natCast_mul, Int.natCast_pow]
  split
  · rename_i negative
    rw [Int.ofNat_natAbs_of_nonpos negative.le, Int.neg_mul, Int.neg_neg]
    rfl
  · rename_i positive
    rw [Int.natAbs_of_nonneg (Int.not_lt.mp positive)]
    rfl

/-- Integers whose magnitudes have at most 53 significant bits are not merged. -/
theorem ofInt_ne_ofInt (firstSmall : first.natAbs ≤ 2 ^ precision)
    (secondSmall : second.natAbs ≤ 2 ^ precision) (different : first ≠ second) :
    ofInt first ≠ ofInt second := by
  rw [Ne, ofInt_eq_iff, signedUnits_ofInt_exact firstSmall, signedUnits_ofInt_exact secondSmall]
  have unit : (2 : Int) ^ unitExponent ≠ 0 := Int.pow_ne_zero (by decide)
  exact fun same => different (Int.eq_of_mul_eq_mul_right unit same)

end DocTyping.Binary64
