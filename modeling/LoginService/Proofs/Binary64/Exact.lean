import LoginService.Proofs.Binary64.Shortest

/-!
# Decimals of up to fifteen digits

A decimal of up to fifteen digits and a small exponent is scaled with a single rounding, because its
digits and the power of ten are doubles themselves. No other decimal of so few digits is rounded to
the same double, so the shortest decimal of that double has the value that was scaled.
-/

namespace LoginService.Binary64

/-- A number of 53 bits, scaled by a power of two, is precise in units of 2^-1074. -/
theorem precise_mul_one {m : Nat} (hm : m < 2 ^ 53) (e : Nat) : Precise (m * 2 ^ e * one) := by
  rw [Nat.mul_assoc, ← unitsOfPower_eq, unitsOfPower, Nat.pow_eq]
  exact precise_mul_two_pow hm _

/-- A power of two is precise. -/
theorem precise_two_pow (e : Nat) : Precise (2 ^ e) := by
  have h := precise_mul_two_pow (m := 1) (by decide) e
  rwa [Nat.one_mul] at h

/-- The number of units of a power of two is precise. -/
theorem precise_unitsOfPower (exponent : Nat) : Precise (unitsOfPower exponent) := by
  rw [unitsOfPower, Nat.pow_eq]
  exact precise_two_pow _

/-- Numbers up to 2^200 are far from being too large. -/
theorem two_pow_mul_one_lt_limit : 2 ^ 200 * one < limit := by
  rw [← unitsOfPower_eq]
  exact unitsOfPower_lt (show 200 < 1024 by decide)

/-- There is a double nearest to a quotient that is not too large. -/
theorem exists_nearest? (negative : Bool) {num den : Nat} (hden : 0 < den)
    (hle : (num : ℚ) / den ≤ 2 ^ 200 * one) :
    ∃ a, nearest? negative num den = some a ∧ a.negative = negative ∧
      IsNearest (num / den) a.units := by
  have hrounded := isNearest_roundUnits num hden
  have hprecise : Precise (2 ^ 200 * one) := by
    rw [← unitsOfPower_eq]
    exact precise_unitsOfPower 200
  have hbound : roundUnits num den ≤ 2 ^ 200 * one :=
    hrounded.mono hprecise.isNearest (by exact_mod_cast hle)
  exact ⟨⟨negative, _, dvd_roundUnits num den, hbound.trans_lt two_pow_mul_one_lt_limit⟩,
    nearest?_eq_some_iff.mpr ⟨rfl, rfl⟩, rfl, hrounded⟩

/-- A number of 53 bits, scaled by a small power of two, is a double. -/
theorem exists_ofNat?_exact {m e : Nat} (hm : m < 2 ^ 53) (he : e ≤ 100) :
    ∃ a, ofNat? (m * 2 ^ e) = some a ∧ a.negative = false ∧ a.units = m * 2 ^ e * one := by
  have hsmall : m * 2 ^ e ≤ 2 ^ 200 := by
    calc
      m * 2 ^ e ≤ 2 ^ 53 * 2 ^ 100 :=
        Nat.mul_le_mul (Nat.le_of_lt hm) (Nat.pow_le_pow_right (by decide) he)
      _ ≤ 2 ^ 200 := by decide
  have hle : ((m * 2 ^ e * one : Nat) : ℚ) / (1 : Nat) ≤ 2 ^ 200 * one := by
    rw [Nat.cast_one, div_one]
    exact_mod_cast Nat.mul_le_mul_right one hsmall
  obtain ⟨a, ha, hsign, hnearest⟩ := exists_nearest? false Nat.one_pos hle
  refine ⟨a, ha, hsign, ?_⟩
  rw [Nat.cast_one, div_one] at hnearest
  exact hnearest.unique (precise_mul_one hm e).isNearest

/-- A small power of ten is a double. -/
theorem exists_ofNat?_pow_ten {n : Nat} (hn : n ≤ 22) :
    ∃ p, ofNat? (Nat.pow 10 n) = some p ∧ p.negative = false ∧ p.units = 10 ^ n * one := by
  have hfive : 5 ^ n < 2 ^ 53 :=
    Nat.lt_of_le_of_lt (Nat.pow_le_pow_right (by decide) hn) (by decide)
  have hten : 10 ^ n = 5 ^ n * 2 ^ n := by rw [← Nat.mul_pow]
  rw [Nat.pow_eq, hten]
  exact exists_ofNat?_exact hfive (by omega)

variable {m : Nat} {a : Binary64}

/-- A whole number of few digits is multiplied by a small power of ten with one rounding. -/
theorem exists_grow?_exact (hsign : a.negative = false) (hunits : a.units = m * one)
    (hm : m < 10 ^ 15) {n : Nat} (hn : n ≤ 22) :
    ∃ b, a.grow? n = some b ∧ b.negative = false ∧ IsNearest (m * 10 ^ n * one) b.units := by
  obtain ⟨p, hp, hpsign, hpunits⟩ := exists_ofNat?_pow_ten hn
  have hone := one_pos
  have hvalue : ((a.units * p.units : Nat) : ℚ) / one = m * 10 ^ n * one := by
    rw [hunits, hpunits]
    push_cast
    field_simp
  have hsmall : m * 10 ^ n ≤ 2 ^ 200 := by
    calc
      m * 10 ^ n ≤ 10 ^ 15 * 10 ^ 22 :=
        Nat.mul_le_mul (Nat.le_of_lt hm) (Nat.pow_le_pow_right (by decide) hn)
      _ ≤ 2 ^ 200 := by decide
  have hle : ((a.units * p.units : Nat) : ℚ) / one ≤ 2 ^ 200 * one := by
    rw [hvalue]
    exact_mod_cast Nat.mul_le_mul_right one hsmall
  obtain ⟨b, hb, hbsign, hnearest⟩ :=
    exists_nearest? (a.negative != p.negative) (unitsOfPower_pos 0) hle
  have hgrown : a.grow? n = a.mul? p := by
    have hpower : n ≤ greatestPower := by
      rw [greatestPower]
      omega
    rw [grow?, if_pos hpower, hp]
    exact Option.bind_some _ _
  rw [← one, hvalue] at hnearest
  refine ⟨b, hgrown.trans hb, ?_, hnearest⟩
  rw [hbsign, hsign, hpsign]
  rfl

/-- A whole number of few digits is divided by a small power of ten with one rounding. -/
theorem exists_shrink?_exact (hsign : a.negative = false) (hunits : a.units = m * one)
    (hm : m < 10 ^ 15) {n : Nat} (hn : n ≤ 22) :
    ∃ b, a.shrink? n = some b ∧ b.negative = false ∧ IsNearest (m / 10 ^ n * one) b.units := by
  obtain ⟨p, hp, hpsign, hpunits⟩ := exists_ofNat?_pow_ten hn
  have hone := one_pos
  have hpower : (0 : ℚ) < 10 ^ n := by positivity
  have hdivisor : 0 < p.units := by
    rw [hpunits]
    exact Nat.mul_pos (Nat.pow_pos (by decide)) (unitsOfPower_pos 0)
  have hvalue : ((a.units * one : Nat) : ℚ) / p.units = m / 10 ^ n * one := by
    rw [hunits, hpunits]
    push_cast
    field_simp
  have hsmall : (m : ℚ) / 10 ^ n ≤ 2 ^ 200 := by
    have hmcast : (m : ℚ) ≤ 10 ^ 15 := by exact_mod_cast Nat.le_of_lt hm
    have hten : (1 : ℚ) ≤ 10 ^ n := one_le_pow₀ (by norm_num)
    calc
      (m : ℚ) / 10 ^ n ≤ m := div_le_self (Nat.cast_nonneg m) hten
      _ ≤ 10 ^ 15 := hmcast
      _ ≤ 2 ^ 200 := by norm_num
  have hle : ((a.units * one : Nat) : ℚ) / p.units ≤ 2 ^ 200 * one := by
    rw [hvalue]
    exact mul_le_mul_of_nonneg_right hsmall hone.le
  obtain ⟨b, hb, hbsign, hnearest⟩ := exists_nearest? (a.negative != p.negative) hdivisor hle
  have hshrunk : a.shrink? n = a.div? p := by
    have hgreatest : n ≤ greatestPower := by
      rw [greatestPower]
      omega
    rw [shrink?_of_le hgreatest, hp]
    exact Option.bind_some _ _
  rw [hvalue] at hnearest
  refine ⟨b, hshrunk.trans hb, ?_, hnearest⟩
  rw [hbsign, hsign, hpsign]
  rfl

/-- A whole number of few digits is scaled by a small power of ten with one rounding. -/
theorem exists_scale?_exact (hsign : a.negative = false) (hunits : a.units = m * one)
    (hm : m < 10 ^ 15) {exponent : Int} (hlow : -22 ≤ exponent) (hhigh : exponent ≤ 22) :
    ∃ b, a.scale? exponent = some b ∧ b.negative = false ∧
      IsNearest (m * 10 ^ exponent * one) b.units := by
  unfold scale?
  split
  · next hpositive =>
    obtain ⟨n, rfl⟩ := Int.eq_ofNat_of_zero_le hpositive
    rw [zpow_natCast]
    exact exists_grow?_exact hsign hunits hm (by omega)
  · next hnegative =>
    obtain ⟨n, rfl⟩ : ∃ n : Nat, exponent = -n := ⟨exponent.natAbs, by omega⟩
    rw [zpow_neg, zpow_natCast, ← div_eq_mul_inv, Int.natAbs_neg, Int.natAbs_natCast]
    exact exists_shrink?_exact hsign hunits hm (by omega)

/-- A number that is rounded to a magnitude is a quotient that is rounded to it. -/
theorem IsNearest.exists_roundUnits {x : ℚ} {units : Nat} (h : IsNearest x units) (hx : 0 ≤ x) :
    ∃ num den : Nat, 0 < den ∧ x = num / den ∧ roundUnits num den = units := by
  obtain ⟨num, hnum⟩ := Int.eq_ofNat_of_zero_le (Rat.num_nonneg.mpr hx)
  have hquotient : x = num / x.den := by
    conv_lhs => rw [← Rat.num_div_den x, hnum]
    rw [Int.cast_natCast]
  exact ⟨num, x.den, x.pos, hquotient, (roundUnits_eq_iff x.pos).mpr (hquotient ▸ h)⟩

/-- What is rounded to a magnitude is near it, unless it is very small. -/
theorem IsNearest.near {x : ℚ} {units : Nat} (h : IsNearest x units) (hx : 2 ^ 52 ≤ x) :
    Near roundoff 0 units x := by
  obtain ⟨num, den, hden, rfl, rfl⟩ := h.exists_roundUnits (le_trans (by norm_num) hx)
  exact near_roundUnits_of_le hden hx

/-- What is rounded to a magnitude is near it, up to half a unit. -/
theorem IsNearest.near_half {x : ℚ} {units : Nat} (h : IsNearest x units) (hx : 0 ≤ x) :
    Near roundoff (1 / 2) units x := by
  obtain ⟨num, den, hden, rfl, rfl⟩ := h.exists_roundUnits hx
  exact near_roundUnits num hden

/-- What is rounded to a magnitude other than zero is at least one half. -/
theorem IsNearest.half_le {x : ℚ} {units : Nat} (h : IsNearest x units) (hx : 0 ≤ x)
    (hunits : units ≠ 0) : 1 / 2 ≤ x := by
  have hzero := h.nearest 0 isNearest_zero.precise
  have hone : (1 : ℚ) ≤ units := by exact_mod_cast Nat.one_le_iff_ne_zero.mpr hunits
  rw [Nat.cast_zero, zero_sub, abs_neg, abs_of_nonneg hx, abs_le] at hzero
  linarith

/-- What is rounded from a large number is large. -/
theorem le_units_of_le {x : ℚ} {units : Nat} (h : IsNearest x units) (hx : 2 ^ 53 ≤ x) :
    2 ^ 53 ≤ units := by
  have hcast : ((2 ^ 53 : Nat) : ℚ) ≤ x := by
    rwa [Nat.cast_pow, Nat.cast_ofNat]
  exact (precise_two_pow 53).isNearest.mono h hcast

/-- Natural numbers of which one is small are equal if they differ by no more than two roundings. -/
theorem eq_of_abs_sub_le {c w : Nat} (hc : c < 10 ^ 15)
    (h : |(c : ℚ) - w| ≤ roundoff * (c + w)) : c = w := by
  by_contra hne
  have hapart := one_le_abs_sub hne
  have hw : (w : ℚ) ≤ c + |(c : ℚ) - w| := by
    have := neg_abs_le ((c : ℚ) - w)
    linarith
  have hcast : (c : ℚ) < 10 ^ 15 := by exact_mod_cast hc
  generalize |(c : ℚ) - w| = gap at *
  norm_num [roundoff] at h
  linarith

/-- Two decimals are equal if both are rounded to the same magnitude, which is not very small, and
the one with the last digit farther right has few digits. -/
theorem toRat_eq_of_exponent_le {d other : Decimal} {units c c' : Nat} {exponent exponent' : Int}
    (hd : d.Normal c exponent) (hother : other.Normal c' exponent') (hle : exponent ≤ exponent')
    (hc : c < 10 ^ 15) (hnear : Near roundoff 0 units (d.toRat * one))
    (hnearOther : Near roundoff 0 units (other.toRat * one)) : d.toRat = other.toRat := by
  obtain ⟨n, rfl⟩ : ∃ n : Nat, exponent' = exponent + n := ⟨(exponent' - exponent).toNat, by omega⟩
  have hten : (10 : ℚ) ≠ 0 := by norm_num
  have hstep : (0 : ℚ) < 10 ^ exponent * one := mul_pos (zpow_pos (by norm_num) _) one_pos
  have hvalue : d.toRat * one = c * (10 ^ exponent * one) := by
    rw [hd.toRat, mul_assoc]
  have hvalueOther : other.toRat * one = (c' * 10 ^ n : Nat) * (10 ^ exponent * one) := by
    rw [hother.toRat, zpow_add₀ hten, zpow_natCast]
    push_cast
    ring
  have hclose : |(c : ℚ) - (c' * 10 ^ n : Nat)| ≤ roundoff * (c + (c' * 10 ^ n : Nat)) := by
    rw [Near, hvalue, add_zero] at hnear
    rw [Near, hvalueOther, add_zero] at hnearOther
    have htriangle := abs_sub_le ((c : ℚ) * (10 ^ exponent * one)) units
      ((c' * 10 ^ n : Nat) * (10 ^ exponent * one))
    rw [abs_sub_comm _ (units : ℚ), ← sub_mul, abs_mul, abs_of_pos hstep] at htriangle
    refine le_of_mul_le_mul_right ?_ hstep
    calc
      |(c : ℚ) - (c' * 10 ^ n : Nat)| * (10 ^ exponent * one) ≤
          roundoff * (c * (10 ^ exponent * one)) +
            roundoff * ((c' * 10 ^ n : Nat) * (10 ^ exponent * one)) :=
        htriangle.trans (add_le_add hnear hnearOther)
      _ = roundoff * (c + (c' * 10 ^ n : Nat)) * (10 ^ exponent * one) := by ring
  have hsame := eq_of_abs_sub_le hc hclose
  rw [← hsame, ← hvalue] at hvalueOther
  exact (mul_right_cancel₀ one_pos.ne' hvalueOther).symm

/-- Of the decimals of up to fifteen digits only one is rounded to a magnitude that is not very
small. -/
theorem toRat_eq_of_isNearest {d other : Decimal} {units : Nat} (hd : d.digits.length ≤ 15)
    (hother : other.digits.length ≤ 15) (h : IsNearest (d.toRat * one) units)
    (hsame : IsNearest (other.toRat * one) units) (hlarge : 2 ^ 53 ≤ d.toRat * one) :
    d.toRat = other.toRat := by
  have hunits := le_units_of_le h hlarge
  have hlargeOther : 2 ^ 52 ≤ other.toRat * one := by
    by_contra! hsmall
    have hcast : other.toRat * one ≤ ((2 ^ 52 : Nat) : ℚ) := by
      rw [Nat.cast_pow, Nat.cast_ofNat]
      exact hsmall.le
    have hle : units ≤ 2 ^ 52 := hsame.mono (precise_two_pow 52).isNearest hcast
    omega
  have hnear := h.near (le_trans (by norm_num) hlarge)
  have hnearOther := hsame.near hlargeOther
  obtain ⟨c, exponent, hc⟩ := Decimal.exists_normal (coefficient_ne_zero_of_isNearest (by omega) h)
  obtain ⟨c', exponent', hc'⟩ :=
    Decimal.exists_normal (coefficient_ne_zero_of_isNearest (by omega) hsame)
  have hbound := (hc.length_digits_le_iff (by decide)).mp hd
  have hbound' := (hc'.length_digits_le_iff (by decide)).mp hother
  rcases le_total exponent exponent' with hle | hle
  · exact toRat_eq_of_exponent_le hc hc' hle hbound hnear hnearOther
  · exact (toRat_eq_of_exponent_le hc' hc hle hbound' hnearOther hnear).symm

/-- The shortest decimal of what a decimal of few digits is rounded to has the value of that
decimal. -/
theorem toRat_shortest_eq {d : Decimal} {units : Nat} (hne : d.coefficient ≠ 0)
    (hd : d.coefficient < 10 ^ 15) (hlow : -22 ≤ d.exponent)
    (h : IsNearest (d.toRat * one) units) : d.toRat = (shortest units).toRat := by
  have hlarge : 2 ^ 53 ≤ d.toRat * one := by
    have hcoefficient : (1 : ℚ) ≤ d.coefficient := by exact_mod_cast Nat.pos_of_ne_zero hne
    have hpower : (10 : ℚ) ^ (-22 : Int) ≤ 10 ^ d.exponent :=
      zpow_le_zpow_right₀ (by norm_num) hlow
    have hvalue : (10 : ℚ) ^ (-22 : Int) ≤ d.toRat := by
      rw [Decimal.toRat]
      exact hpower.trans (le_mul_of_one_le_left (zpow_pos (by norm_num) _).le hcoefficient)
    have hone : (2 : ℚ) ^ 200 ≤ one := le_unitsOfPower 0 (by decide)
    calc
      (2 : ℚ) ^ 53 ≤ 10 ^ (-22 : Int) * 2 ^ 200 := by norm_num
      _ ≤ d.toRat * one := mul_le_mul hvalue hone (by positivity) (le_trans (by positivity) hvalue)
  have hunits := le_units_of_le h hlarge
  have hshortest := isShortest_shortest (by omega) h.precise
  have hdigits := Decimal.length_digits_le hne (by decide) (Nat.le_of_lt hd)
  exact toRat_eq_of_isNearest hdigits ((hshortest.shortest d h).trans hdigits) h hshortest.rounded
    hlarge

end LoginService.Binary64
