/-!
# Finite binary64 numbers

Every finite double is a whole number of units of 2^-1074, so a double is held as a sign and a count
of units, and an exact result is a quotient of natural numbers in the same units. Each operation
rounds its exact result once, to the nearest double and to the even one of two; `none` stands for a
result that would round to infinity.
-/

namespace LoginService

namespace Binary64

/-- How many units make `2 ^ exponent`. -/
def unitsOfPower (exponent : Nat) : Nat := Nat.pow 2 (exponent + 1074)

/-- How many units make one. -/
def one : Nat := unitsOfPower 0

/-- How many units make 2^1024, which every finite double stays below. -/
def limit : Nat := unitsOfPower 1024

end Binary64

/-- A finite double: `units` times 2^-1074, negated if `negative`. Zero has both signs. -/
structure Binary64 where
  /-- Whether the sign is minus. -/
  negative : Bool
  /-- The magnitude in units of 2^-1074. -/
  units : Nat
  /-- The magnitude has at most 53 significant bits. -/
  precise : Nat.pow 2 (units.log2 - 52) ∣ units
  /-- The magnitude is below 2^1024. -/
  finite : units < Binary64.limit

namespace Binary64

/-- The quotient rounded to the nearest natural number, and to the even one of two. -/
def roundDiv (num den : Nat) : Nat :=
  let quotient := num / den
  let rest := num % den
  if 2 * rest < den ∨ (2 * rest = den ∧ quotient % 2 = 0) then quotient else quotient + 1

/-- The quotient rounded to 53 significant bits, and to a natural number if it has fewer before the
point. -/
def roundUnits (num den : Nat) : Nat :=
  let exponent := (num / den).log2 - 52
  let step := Nat.pow 2 exponent
  roundDiv num (den * step) * step

/-- Rounding moves a quotient up by at most one. -/
theorem roundDiv_le (num den : Nat) : roundDiv num den ≤ num / den + 1 := by
  unfold roundDiv
  dsimp only
  split <;> omega

/-- A rounded quotient has at most 53 significant bits. -/
theorem dvd_roundUnits (num den : Nat) :
    Nat.pow 2 ((roundUnits num den).log2 - 52) ∣ roundUnits num den := by
  unfold roundUnits
  dsimp only
  simp only [Nat.pow_eq]
  generalize hexponent : (num / den).log2 - 52 = exponent
  generalize hmultiple : roundDiv num (den * 2 ^ exponent) = multiple
  have hquotient : num / (den * 2 ^ exponent) < 2 ^ 53 := by
    rw [← Nat.div_div_eq_div_mul, Nat.div_lt_iff_lt_mul (Nat.two_pow_pos _), ← Nat.pow_add]
    exact Nat.lt_of_lt_of_le Nat.lt_log2_self (Nat.pow_le_pow_right (by decide) (by omega))
  have hle : multiple ≤ 2 ^ 53 := by
    have := roundDiv_le num (den * 2 ^ exponent)
    omega
  by_cases htop : multiple = 2 ^ 53
  · rw [htop, ← Nat.pow_add, Nat.log2_two_pow]
    exact Nat.pow_dvd_pow 2 (by omega)
  · by_cases hzero : multiple = 0
    · simp [hzero]
    · have hbits : (multiple * 2 ^ exponent).log2 < 53 + exponent := by
        rw [Nat.log2_lt (Nat.mul_ne_zero hzero (Nat.ne_of_gt (Nat.two_pow_pos _))), Nat.pow_add]
        exact Nat.mul_lt_mul_of_pos_right (by omega) (Nat.two_pow_pos _)
      exact Nat.dvd_mul_left_of_dvd (Nat.pow_dvd_pow 2 (by omega)) _

/-- A power of two is a positive number of units. -/
theorem unitsOfPower_pos (exponent : Nat) : 0 < unitsOfPower exponent :=
  Nat.two_pow_pos _

/-- The double nearest to a quotient in units of 2^-1074, with the given sign. -/
def nearest? (negative : Bool) (num den : Nat) : Option Binary64 :=
  if hfinite : roundUnits num den < limit then
    some ⟨negative, roundUnits num den, dvd_roundUnits num den, hfinite⟩
  else
    none

/-- Positive zero. -/
def zero : Binary64 := ⟨false, 0, Nat.dvd_zero _, unitsOfPower_pos 1024⟩

/-- The double nearest to a natural number. -/
def ofNat? (n : Nat) : Option Binary64 :=
  nearest? false (n * one) 1

/-- The rounded product of two doubles. -/
def mul? (a b : Binary64) : Option Binary64 :=
  nearest? (a.negative != b.negative) (a.units * b.units) one

/-- The rounded quotient of two doubles, the second of which is not zero. -/
def div? (a b : Binary64) : Option Binary64 :=
  nearest? (a.negative != b.negative) (a.units * one) b.units

/-- The number with its sign replaced. -/
def withSign (negative : Bool) (a : Binary64) : Binary64 :=
  { a with negative }

end Binary64

end LoginService
