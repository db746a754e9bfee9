import LoginService.Binary64.Basic
import Mathlib.Algebra.Order.Field.Rat
import Mathlib.Data.Nat.Cast.Order.Field
import Mathlib.Data.Rat.Cast.Order
import Mathlib.Tactic.FieldSimp
import Mathlib.Tactic.Linarith
import Mathlib.Tactic.NormNum
import Mathlib.Tactic.Positivity
import Mathlib.Tactic.Ring

/-!
# The error of one rounding

A quotient is rounded to a multiple of a step, which is one unit or small against the quotient. So a
rounded result is near the exact one, up to a relative error for large results and an absolute one
for small results. Errors of both kinds add up along a computation.
-/

namespace LoginService

/-- `x` is at most `relative * y + absolute` away from `y`. -/
def Near (relative absolute x y : ℚ) : Prop :=
  |x - y| ≤ relative * y + absolute

namespace Near

variable {ε η ε' η' x y z c : ℚ}

/-- Nearness from both sides. -/
theorem iff_le : Near ε η x y ↔ (1 - ε) * y - η ≤ x ∧ x ≤ (1 + ε) * y + η := by
  rw [Near, abs_le]
  constructor
  · rintro ⟨hlow, hhigh⟩
    constructor <;> linarith
  · rintro ⟨hlow, hhigh⟩
    constructor <;> linarith

/-- What is near is not far below. -/
theorem ge (h : Near ε η x y) : (1 - ε) * y - η ≤ x :=
  (iff_le.mp h).1

/-- What is near is not far above. -/
theorem le (h : Near ε η x y) : x ≤ (1 + ε) * y + η :=
  (iff_le.mp h).2

/-- A number is near itself. -/
theorem refl (hε : 0 ≤ ε) (hη : 0 ≤ η) (hy : 0 ≤ y) : Near ε η y y := by
  rw [Near, sub_self, abs_zero]
  positivity

/-- Larger errors are allowed. -/
theorem mono (h : Near ε η x y) (hε : ε ≤ ε') (hη : η ≤ η') (hy : 0 ≤ y) : Near ε' η' x y :=
  h.trans (add_le_add (mul_le_mul_of_nonneg_right hε hy) hη)

/-- Relative errors add up, but for their product, and absolute ones but for what the other relative
error adds. -/
theorem trans (hxy : Near ε η x y) (hyz : Near ε' η' y z) (hε : 0 ≤ ε) :
    Near (ε + ε' + ε * ε') (η + (1 + ε) * η') x z := by
  have htriangle := abs_sub_le x y z
  have hscaled : ε * y ≤ ε * ((1 + ε') * z + η') := mul_le_mul_of_nonneg_left hyz.le hε
  calc
    |x - z| ≤ |x - y| + |y - z| := htriangle
    _ ≤ (ε * y + η) + (ε' * z + η') := add_le_add hxy hyz
    _ ≤ (ε * ((1 + ε') * z + η') + η) + (ε' * z + η') := by linarith
    _ = (ε + ε' + ε * ε') * z + (η + (1 + ε) * η') := by ring

/-- A factor scales both numbers and the absolute error. -/
theorem mul (h : Near ε η x y) (hc : 0 ≤ c) : Near ε (η * c) (x * c) (y * c) := by
  have hscaled := mul_le_mul_of_nonneg_right h hc
  calc
    |x * c - y * c| = |x - y| * c := by rw [← sub_mul, abs_mul, abs_of_nonneg hc]
    _ ≤ (ε * y + η) * c := hscaled
    _ = ε * (y * c) + η * c := by ring

/-- A divisor scales both numbers and the absolute error. -/
theorem div (h : Near ε η x y) (hc : 0 < c) : Near ε (η / c) (x / c) (y / c) := by
  rw [div_eq_mul_inv, div_eq_mul_inv, div_eq_mul_inv]
  exact h.mul (inv_nonneg.mpr hc.le)

/-- A divisor that is near another one can take its place, if its error is at most one ninth. -/
theorem div_left (h : Near ε 0 x y) (hε : 0 ≤ ε) (hsmall : 9 * ε ≤ 1) (hy : 0 < y) (hz : 0 ≤ z) :
    Near (9 / 8 * ε) 0 (z / x) (z / y) := by
  have hlow : 8 / 9 * y ≤ x := by
    have := h.ge
    nlinarith
  have hx : 0 < x := by linarith
  have heq : z / x - z / y = (y - x) / x * (z / y) := by
    field_simp
  have hquotient : |(y - x) / x| ≤ 9 / 8 * ε := by
    rw [abs_div, abs_sub_comm, abs_of_pos hx, div_le_iff₀ hx]
    have hxy : |x - y| ≤ ε * y + 0 := h
    have hscaled := mul_le_mul_of_nonneg_left hlow hε
    linarith
  rw [Near, heq, abs_mul, abs_of_nonneg (div_nonneg hz hy.le), add_zero]
  exact mul_le_mul_of_nonneg_right hquotient (div_nonneg hz hy.le)

end Near

/-- `x` is at most `relative * y + absolute` above `y`. -/
def AtMost (relative absolute x y : ℚ) : Prop :=
  x ≤ (1 + relative) * y + absolute

namespace AtMost

variable {ε η ε' η' x y z : ℚ}

/-- Larger errors are allowed. -/
theorem mono (h : AtMost ε η x y) (hε : ε ≤ ε') (hη : η ≤ η') (hy : 0 ≤ y) : AtMost ε' η' x y := by
  have hrelative := mul_le_mul_of_nonneg_right hε hy
  rw [AtMost] at *
  linarith

/-- The errors of a bound and of what it bounds add up like those of two approximations. -/
theorem trans (hxy : AtMost ε η x y) (hyz : Near ε' η' y z) (hε : 0 ≤ ε) :
    AtMost (ε + ε' + ε * ε') (η + (1 + ε) * η') x z := by
  have hscaled : (1 + ε) * y ≤ (1 + ε) * ((1 + ε') * z + η') :=
    mul_le_mul_of_nonneg_left hyz.le (by linarith)
  calc
    x ≤ (1 + ε) * y + η := hxy
    _ ≤ (1 + ε) * ((1 + ε') * z + η') + η := by linarith
    _ = (1 + (ε + ε' + ε * ε')) * z + (η + (1 + ε) * η') := by ring

end AtMost

namespace Binary64

/-- Half of the gap between one and the next larger double. -/
def roundoff : ℚ := 1 / 2 ^ 53

/-- The error of one rounding is positive. -/
theorem roundoff_pos : 0 < roundoff := by
  norm_num [roundoff]

/-- The error of one rounding is small. -/
theorem thousand_roundoff_le : 1000 * roundoff ≤ 1 := by
  norm_num [roundoff]

/-- A quotient is rounded by at most one half. -/
theorem abs_roundDiv_sub_le (num : Nat) {den : Nat} (hden : 0 < den) :
    |(roundDiv num den : ℚ) - num / den| ≤ 1 / 2 := by
  have hnum := Nat.div_add_mod num den
  have hrest := Nat.mod_lt num hden
  -- Both bounds on the rounded quotient, multiplied by twice the divisor.
  have hbounds : 2 * (roundDiv num den * den) ≤ 2 * num + den ∧
      2 * num ≤ 2 * (roundDiv num den * den) + den := by
    have hsucc : (num / den + 1) * den = den * (num / den) + den := by ring
    have hcomm : num / den * den = den * (num / den) := Nat.mul_comm _ _
    unfold roundDiv
    dsimp only
    split
    · rw [hcomm]
      omega
    · rw [hsucc]
      omega
  have hcast : (0 : ℚ) < den := Nat.cast_pos.mpr hden
  have hhigh : 2 * ((roundDiv num den : ℚ) * den) ≤ 2 * num + den := by exact_mod_cast hbounds.1
  have hlow : 2 * (num : ℚ) ≤ 2 * ((roundDiv num den : ℚ) * den) + den := by
    exact_mod_cast hbounds.2
  have hquotient : (num : ℚ) / den * den = num := div_mul_cancel₀ _ hcast.ne'
  rw [abs_le]
  constructor
  · by_contra! hfar
    nlinarith
  · by_contra! hfar
    nlinarith

/-- A quotient is rounded by at most half a unit, or by a relative error of at most 2^-53. -/
theorem abs_roundUnits_sub_le (num : Nat) {den : Nat} (hden : 0 < den) :
    |(roundUnits num den : ℚ) - num / den| ≤ max (1 / 2) (roundoff * (num / den)) := by
  have hcast : (0 : ℚ) < den := Nat.cast_pos.mpr hden
  unfold roundUnits
  dsimp only
  simp only [Nat.pow_eq]
  generalize hexponent : (num / den).log2 - 52 = exponent
  have hstep : (0 : ℚ) < 2 ^ exponent := by positivity
  have hrounded := abs_roundDiv_sub_le num (Nat.mul_pos hden (Nat.two_pow_pos exponent))
  have herror : |((roundDiv num (den * 2 ^ exponent) * 2 ^ exponent : Nat) : ℚ) - num / den| ≤
      2 ^ exponent / 2 := by
    have heq : ((roundDiv num (den * 2 ^ exponent) * 2 ^ exponent : Nat) : ℚ) - num / den =
        ((roundDiv num (den * 2 ^ exponent) : ℚ) - num / (den * 2 ^ exponent : Nat)) *
          2 ^ exponent := by
      push_cast
      field_simp
    rw [heq, abs_mul, abs_of_pos hstep]
    linarith [mul_le_mul_of_nonneg_right hrounded hstep.le]
  refine herror.trans ?_
  cases exponent with
  | zero => exact le_max_of_le_left (by norm_num)
  | succ exponent =>
    -- A step of more than one unit is small against the quotient.
    refine le_max_of_le_right ?_
    have hquotient : num / den ≠ 0 := by
      intro hzero
      rw [hzero] at hexponent
      simp at hexponent
    have hpow : 2 ^ (exponent + 1 + 52) ≤ num / den := by
      rw [← Nat.le_log2 hquotient]
      omega
    have hle : ((2 ^ (exponent + 1 + 52) : Nat) : ℚ) ≤ num / den :=
      (Nat.cast_le.mpr hpow).trans Nat.cast_div_le
    have hsplit : ((2 ^ (exponent + 1 + 52) : Nat) : ℚ) = 2 ^ (exponent + 1) * 2 ^ 52 := by
      push_cast
      rw [pow_add]
    have hhalf : (2 : ℚ) ^ (exponent + 1) / 2 = roundoff * (2 ^ (exponent + 1) * 2 ^ 52) := by
      rw [roundoff]
      ring
    rw [hhalf, ← hsplit]
    exact mul_le_mul_of_nonneg_left hle roundoff_pos.le

/-- A rounded quotient is near the quotient. -/
theorem near_roundUnits (num : Nat) {den : Nat} (hden : 0 < den) :
    Near roundoff (1 / 2) (roundUnits num den) (num / den) := by
  have hquotient : (0 : ℚ) ≤ roundoff * (num / den) :=
    mul_nonneg roundoff_pos.le (div_nonneg (Nat.cast_nonneg _) (Nat.cast_nonneg _))
  refine (abs_roundUnits_sub_le num hden).trans (max_le ?_ ?_) <;> linarith

/-- A large quotient is rounded by a relative error only. -/
theorem near_roundUnits_of_le {num den : Nat} (hden : 0 < den)
    (hlarge : (2 : ℚ) ^ 52 ≤ num / den) : Near roundoff 0 (roundUnits num den) (num / den) := by
  refine (abs_roundUnits_sub_le num hden).trans ?_
  rw [add_zero, max_eq_right]
  rw [roundoff]
  linarith

/-- A result is a double if it does not round to infinity. -/
theorem nearest?_eq_some_iff {negative : Bool} {num den : Nat} {a : Binary64} :
    nearest? negative num den = some a ↔ a.negative = negative ∧ a.units = roundUnits num den := by
  obtain ⟨sign, units, hprecise, hfinite⟩ := a
  unfold nearest?
  split
  · simp [eq_comm]
  · next hinfinite =>
    refine iff_of_false (Option.some_ne_none _).symm ?_
    rintro ⟨-, rfl⟩
    exact hinfinite hfinite

/-- There is no double for a result that rounds to infinity. -/
theorem nearest?_eq_none_iff {negative : Bool} {num den : Nat} :
    nearest? negative num den = none ↔ limit ≤ roundUnits num den := by
  unfold nearest?
  split
  · next hfinite => exact iff_of_false (Option.some_ne_none _) (Nat.not_le.mpr hfinite)
  · next hinfinite => exact iff_of_true rfl (Nat.not_lt.mp hinfinite)

/-- One is a positive number of units. -/
theorem one_pos : (0 : ℚ) < one :=
  Nat.cast_pos.mpr (unitsOfPower_pos 0)

/-- A power of natural numbers as a rational number. The large powers of this development are cases
of it, so that none of them is evaluated. -/
theorem cast_natPow (base exponent : Nat) :
    ((Nat.pow base exponent : Nat) : ℚ) = (base : ℚ) ^ exponent :=
  Nat.cast_pow base exponent

/-- The number of units of a power of two is a power of two as well. -/
theorem cast_unitsOfPower (exponent : Nat) :
    (unitsOfPower exponent : ℚ) = 2 ^ (exponent + 1074) :=
  cast_natPow 2 (exponent + 1074)

/-- The units of one are a power of two. -/
theorem cast_one : (one : ℚ) = 2 ^ 1074 :=
  cast_unitsOfPower 0

/-- A power of two is a large number of units. -/
theorem le_unitsOfPower (exponent : Nat) {k : Nat} (hk : k ≤ exponent + 1074) :
    (2 : ℚ) ^ k ≤ unitsOfPower exponent := by
  rw [cast_unitsOfPower]
  exact pow_le_pow_right₀ (by norm_num) hk

/-- Larger powers of two have more units. -/
theorem unitsOfPower_lt {exponent other : Nat} (h : exponent < other) :
    unitsOfPower exponent < unitsOfPower other := by
  rw [unitsOfPower, unitsOfPower, Nat.pow_eq, Nat.pow_eq]
  exact Nat.pow_lt_pow_right (by decide) (by omega)

/-- A quotient below one half is rounded to zero. -/
theorem roundUnits_of_lt_half {num den : Nat} (h : 2 * num < den) : roundUnits num den = 0 := by
  have hquotient : num / den = 0 := Nat.div_eq_of_lt (by omega)
  have hrest : num % den = num := Nat.mod_eq_of_lt (by omega)
  simp [roundUnits, roundDiv, hquotient, hrest, h]

/-- What becomes of an exact result: a double with the given sign and near it, or nothing if it is
too large for that. -/
inductive Rounded (result : Option Binary64) (negative : Bool) (relative absolute exact : ℚ) :
    Prop where
  | near {a : Binary64} (hresult : result = some a) (hsign : a.negative = negative)
      (hnear : Near relative absolute a.units exact)
  | tooLarge (hresult : result = none) (hlarge : AtMost relative absolute limit exact)

namespace Rounded

variable {result : Option Binary64} {negative : Bool} {ε η ε' η' y z : ℚ}

/-- Larger errors are allowed. -/
theorem mono (h : Rounded result negative ε η y) (hε : ε ≤ ε') (hη : η ≤ η') (hy : 0 ≤ y) :
    Rounded result negative ε' η' y := by
  cases h with
  | near hresult hsign hnear => exact .near hresult hsign (hnear.mono hε hη hy)
  | tooLarge hresult hlarge => exact .tooLarge hresult (hlarge.mono hε hη hy)

/-- If what is rounded is only near the exact result, the errors add up. -/
theorem trans (h : Rounded result negative ε η y) (hyz : Near ε' η' y z) (hε : 0 ≤ ε) :
    Rounded result negative (ε + ε' + ε * ε') (η + (1 + ε) * η') z := by
  cases h with
  | near hresult hsign hnear => exact .near hresult hsign (hnear.trans hyz hε)
  | tooLarge hresult hlarge => exact .tooLarge hresult (hlarge.trans hyz hε)

/-- A result that is well below 2^1024 becomes a double. -/
theorem exists_near (h : Rounded result negative ε η y) (hsmall : (1 + ε) * y + η < limit) :
    ∃ a, result = some a ∧ a.negative = negative ∧ Near ε η a.units y := by
  cases h with
  | near hresult hsign hnear => exact ⟨_, hresult, hsign, hnear⟩
  | tooLarge _ hlarge => exact absurd hlarge (not_le.mpr hsmall)

end Rounded

/-- A quotient is rounded once. -/
theorem rounded_nearest? (negative : Bool) (num : Nat) {den : Nat} (hden : 0 < den) :
    Rounded (nearest? negative num den) negative roundoff (1 / 2) (num / den) := by
  have hnear := near_roundUnits num hden
  cases hresult : nearest? negative num den with
  | some a =>
    obtain ⟨hsign, hunits⟩ := nearest?_eq_some_iff.mp hresult
    rw [← hunits] at hnear
    exact .near rfl hsign hnear
  | none =>
    have hinfinite : (limit : ℚ) ≤ roundUnits num den :=
      Nat.cast_le.mpr (nearest?_eq_none_iff.mp hresult)
    exact .tooLarge rfl (hinfinite.trans hnear.le)

/-- The product of two doubles is rounded once. -/
theorem rounded_mul? (a b : Binary64) :
    Rounded (a.mul? b) (a.negative != b.negative) roundoff (1 / 2) (a.units * b.units / one) := by
  have hresult :=
    rounded_nearest? (a.negative != b.negative) (a.units * b.units) (unitsOfPower_pos 0)
  rwa [Nat.cast_mul] at hresult

/-- The quotient of two doubles is rounded once. -/
theorem rounded_div? (a : Binary64) {b : Binary64} (hb : 0 < b.units) :
    Rounded (a.div? b) (a.negative != b.negative) roundoff (1 / 2)
      (a.units * one / b.units) := by
  have hresult := rounded_nearest? (a.negative != b.negative) (a.units * one) hb
  rwa [Nat.cast_mul] at hresult

/-- A natural number that is well below 2^1024 has a double near it. -/
theorem ofNat?_near {m : Nat} (hm : 3 * (m * one) ≤ 2 * limit) :
    ∃ a, ofNat? m = some a ∧ a.negative = false ∧ Near roundoff 0 a.units (m * one) := by
  have hnear : Near roundoff 0 (roundUnits (m * one) 1) (m * one) := by
    cases m with
    | zero =>
      have hzero : roundUnits (0 * one) 1 = 0 := by
        rw [Nat.zero_mul]
        exact roundUnits_of_lt_half (by decide)
      rw [hzero, Nat.cast_zero, zero_mul]
      exact Near.refl roundoff_pos.le le_rfl le_rfl
    | succ m =>
      have hlarge : (2 : ℚ) ^ 52 ≤ ((m + 1) * one : Nat) / (1 : Nat) := by
        have hone : (2 : ℚ) ^ 52 ≤ one := le_unitsOfPower 0 (by decide)
        have hle : (one : ℚ) ≤ ((m + 1) * one : Nat) :=
          Nat.cast_le.mpr (Nat.le_mul_of_pos_left one m.succ_pos)
        rw [Nat.cast_one, div_one]
        exact hone.trans hle
      have hnear := near_roundUnits_of_le Nat.one_pos hlarge
      rwa [Nat.cast_one, div_one, Nat.cast_mul] at hnear
  have hfinite : roundUnits (m * one) 1 < limit := by
    have hcast : 3 * ((m : ℚ) * one) ≤ 2 * limit := by exact_mod_cast hm
    have hlimit : (2 : ℚ) ^ 52 ≤ limit := le_unitsOfPower 1024 (by decide)
    have hexact : (0 : ℚ) ≤ m * one := mul_nonneg (Nat.cast_nonneg m) one_pos.le
    have hscaled : roundoff * ((m : ℚ) * one) ≤ 1 / 9 * (m * one) :=
      mul_le_mul_of_nonneg_right (by linarith [thousand_roundoff_le]) hexact
    have hlt : (roundUnits (m * one) 1 : ℚ) < limit := by
      have hrounded := hnear.le
      linarith
    exact_mod_cast hlt
  refine ⟨⟨false, _, dvd_roundUnits _ _, hfinite⟩, ?_, rfl, hnear⟩
  exact nearest?_eq_some_iff.mpr ⟨rfl, rfl⟩

end Binary64

end LoginService
