import LoginService.Proofs.Binary64.Rounding
import Mathlib.Algebra.Group.Nat.Even

/-!
# Rounding to nearest, ties to even

Rounding is defined by a quotient and its remainder. This file says what the result is: of all
magnitudes with at most 53 significant bits the nearest to the exact one, and of two that are
equally near the one with the even significand. There is only one such magnitude, and it grows with
the exact one, so what is rounded to a magnitude is an interval around it.
-/

namespace LoginService.Binary64

/-- The weight of the last of the 53 significant bits of a magnitude, or one unit if there are
fewer. -/
def spacing (units : Nat) : Nat := 2 ^ (units.log2 - 52)

/-- The magnitude has at most 53 significant bits. -/
def Precise (units : Nat) : Prop := spacing units ∣ units

/-- The significant bits of a magnitude as a number. -/
def significand (units : Nat) : Nat := units / spacing units

/-- A spacing is at least one unit. -/
theorem spacing_pos (units : Nat) : 0 < spacing units :=
  Nat.two_pow_pos _

/-- A precise magnitude is its significand in units of its spacing. -/
theorem Precise.significand_mul {units : Nat} (h : Precise units) :
    significand units * spacing units = units :=
  Nat.div_mul_cancel h

/-- A magnitude has at most 53 bits in units of its spacing. -/
theorem lt_mul_spacing (units : Nat) : units < 2 ^ 53 * spacing units := by
  have hlt : units < 2 ^ (units.log2 + 1) := Nat.lt_log2_self
  have hle : 2 ^ (units.log2 + 1) ≤ 2 ^ 53 * 2 ^ (units.log2 - 52) := by
    rw [← Nat.pow_add]
    exact Nat.pow_le_pow_right (by decide) (by omega)
  exact Nat.lt_of_lt_of_le hlt hle

/-- A larger magnitude has at least as many bits. -/
theorem log2_le_log2 {units other : Nat} (h : units ≤ other) : units.log2 ≤ other.log2 := by
  by_cases hzero : units = 0
  · simp [hzero]
  · rw [Nat.le_log2 (by omega)]
    exact Nat.le_trans (Nat.log2_self_le hzero) h

/-- The spacing of a larger magnitude is a multiple of that of a smaller one. -/
theorem spacing_dvd {units other : Nat} (h : units ≤ other) : spacing units ∣ spacing other := by
  have hbits := log2_le_log2 h
  exact Nat.pow_dvd_pow 2 (by omega)

/-- A number of 53 bits, scaled by a power of two, has that power as its spacing unless it has fewer
bits. -/
theorem spacing_mul_two_pow {m e : Nat} (hm : m < 2 ^ 53) (hlow : e = 0 ∨ 2 ^ 52 ≤ m) :
    spacing (m * 2 ^ e) = 2 ^ e := by
  have hbits : (m * 2 ^ e).log2 - 52 = e := by
    rcases hlow with rfl | hlow
    · have hle : m.log2 ≤ 52 := by
        by_cases hzero : m = 0
        · simp [hzero]
        · have := (Nat.log2_lt hzero).mpr hm
          omega
      rw [Nat.pow_zero, Nat.mul_one]
      omega
    · have hpos : m * 2 ^ e ≠ 0 :=
        Nat.mul_ne_zero (by omega) (Nat.ne_of_gt (Nat.two_pow_pos e))
      have hlog : (m * 2 ^ e).log2 = 52 + e := by
        rw [Nat.log2_eq_iff hpos, Nat.pow_add, Nat.add_right_comm, Nat.pow_add]
        exact ⟨Nat.mul_le_mul_right _ hlow, Nat.mul_lt_mul_of_pos_right hm (Nat.two_pow_pos e)⟩
      omega
  rw [spacing, hbits]

/-- A number of at most 53 bits, scaled by a power of two, is precise. -/
theorem precise_mul_two_pow {m : Nat} (hm : m < 2 ^ 53) (e : Nat) : Precise (m * 2 ^ e) := by
  by_cases hzero : m = 0
  · simp [Precise, hzero]
  · have hpos : m * 2 ^ e ≠ 0 := Nat.mul_ne_zero hzero (Nat.ne_of_gt (Nat.two_pow_pos e))
    have hbits : (m * 2 ^ e).log2 < 53 + e := by
      rw [Nat.log2_lt hpos, Nat.pow_add]
      exact Nat.mul_lt_mul_of_pos_right hm (Nat.two_pow_pos e)
    exact Nat.dvd_mul_left_of_dvd (Nat.pow_dvd_pow 2 (by omega)) m

/-- A precise magnitude is a multiple of a power of two, or has too few bits for that. -/
theorem Precise.dvd_or_lt {units : Nat} (h : Precise units) (e : Nat) :
    2 ^ e ∣ units ∨ units < 2 ^ 52 * 2 ^ e := by
  by_cases hbits : e ≤ units.log2 - 52
  · exact .inl ((Nat.pow_dvd_pow 2 hbits).trans h)
  · have hlt : units < 2 ^ (units.log2 + 1) := Nat.lt_log2_self
    have hle : 2 ^ (units.log2 + 1) ≤ 2 ^ 52 * 2 ^ e := by
      rw [← Nat.pow_add]
      exact Nat.pow_le_pow_right (by decide) (by omega)
    exact .inr (Nat.lt_of_lt_of_le hlt hle)

/-- Between two precise magnitudes there is room for the spacing of the smaller one. -/
theorem Precise.add_spacing_le {units other : Nat} (h : Precise units) (hother : Precise other)
    (hlt : units < other) : units + spacing units ≤ other := by
  have hdvd : spacing units ∣ other := (spacing_dvd (Nat.le_of_lt hlt)).trans hother
  have hle := Nat.le_of_dvd (by omega) (Nat.dvd_sub hdvd h)
  omega

/-- Two precise magnitudes differ by at least 2^-53 of the larger one. -/
theorem Precise.le_mul_sub {units other : Nat} (h : Precise units) (hother : Precise other)
    (hlt : units < other) : 2 ^ 53 * units + other ≤ 2 ^ 53 * other := by
  have hroom := h.add_spacing_le hother hlt
  have hbits := lt_mul_spacing units
  -- The smaller one and its spacing together have at most 53 bits in units of that spacing.
  have hmultiple : units + spacing units ≤ 2 ^ 53 * spacing units := by
    have hdvd : spacing units ∣ 2 ^ 53 * spacing units - units :=
      Nat.dvd_sub (Nat.dvd_mul_left _ _) h
    have hle := Nat.le_of_dvd (by omega) hdvd
    omega
  omega

/-- The magnitude is rounded from `x`: it is precise, no other precise one is nearer, and if another
is equally near, its own significand is the even one. -/
structure IsNearest (x : ℚ) (units : Nat) : Prop where
  /-- It has at most 53 significant bits. -/
  precise : Precise units
  /-- No other magnitude of that kind is nearer. -/
  nearest : ∀ other, Precise other → |(units : ℚ) - x| ≤ |(other : ℚ) - x|
  /-- Of two that are equally near it is the even one. -/
  even : ∀ other, Precise other → other ≠ units → |(other : ℚ) - x| = |(units : ℚ) - x| →
    Even (significand units)

/-- A precise magnitude is rounded to itself. -/
theorem Precise.isNearest {units : Nat} (h : Precise units) : IsNearest units units := by
  refine ⟨h, fun other _ => ?_, fun other _ hne htie => ?_⟩
  · rw [sub_self, abs_zero]
    exact abs_nonneg _
  · rw [sub_self, abs_zero, abs_eq_zero, sub_eq_zero] at htie
    exact absurd (by exact_mod_cast htie) hne

/-- Zero is rounded to itself. -/
theorem isNearest_zero : IsNearest 0 0 := by
  have hzero : Precise 0 := Nat.dvd_zero _
  exact_mod_cast hzero.isNearest

/-- The next precise magnitude after one with an even significand has an odd one. -/
theorem significand_add_spacing {units : Nat} (h : Precise units)
    (heven : Even (significand units)) :
    Precise (units + spacing units) ∧ ¬Even (significand (units + spacing units)) := by
  have hunits := h.significand_mul
  have hbits : significand units < 2 ^ 53 :=
    Nat.div_lt_of_lt_mul (by rw [Nat.mul_comm]; exact lt_mul_spacing units)
  obtain ⟨half, hhalf⟩ := heven
  have hnext : significand units + 1 < 2 ^ 53 := by omega
  have hsum : units + spacing units = (significand units + 1) * 2 ^ (units.log2 - 52) := by
    rw [Nat.succ_mul, ← spacing, hunits]
  have hlow : units.log2 - 52 = 0 ∨ 2 ^ 52 ≤ significand units + 1 := by
    by_cases hsmall : units.log2 ≤ 52
    · exact .inl (by omega)
    · have hzero : units ≠ 0 := by
        rintro rfl
        simp at hsmall
      have hle : 2 ^ 52 * spacing units ≤ units := by
        rw [spacing, ← Nat.pow_add, Nat.add_sub_cancel' (by omega)]
        exact Nat.log2_self_le hzero
      have hdiv := (Nat.le_div_iff_mul_le (spacing_pos units)).mpr hle
      exact .inr (Nat.le_succ_of_le hdiv)
  refine ⟨hsum ▸ precise_mul_two_pow hnext _, ?_⟩
  rw [hsum, significand, spacing_mul_two_pow hnext hlow,
    Nat.mul_div_cancel _ (Nat.two_pow_pos _), Nat.even_add_one, hhalf, not_not]
  exact ⟨half, rfl⟩

namespace IsNearest

variable {x y z : ℚ} {units other : Nat}

/-- Of two magnitudes that are equally near, the smaller one cannot be rounded to as well as the
larger one. -/
theorem not_lt (h : IsNearest x units) (hother : IsNearest x other) : ¬units < other := by
  intro hlt
  have htie : |(other : ℚ) - x| = |(units : ℚ) - x| :=
    le_antisymm (hother.nearest units h.precise) (h.nearest other hother.precise)
  have heven := h.even other hother.precise (by omega) htie
  obtain ⟨hnext, hodd⟩ := significand_add_spacing h.precise heven
  have hroom := h.precise.add_spacing_le hother.precise hlt
  have hpos := spacing_pos units
  have hcast : (units : ℚ) < other := by exact_mod_cast hlt
  -- The exact value lies half-way, so nothing precise can stand between the two.
  have hmiddle : (units : ℚ) + other = 2 * x := by
    rcases abs_eq_abs.mp htie with heq | heq <;> linarith
  have hsame : units + spacing units = other := by
    by_contra hne
    have hbetween : (units : ℚ) < (units + spacing units : Nat) ∧
        ((units + spacing units : Nat) : ℚ) < other := by
      constructor
      · exact_mod_cast Nat.lt_add_of_pos_right hpos
      · exact_mod_cast Nat.lt_of_le_of_ne hroom hne
    have hnearest := h.nearest _ hnext
    have hfar : |((units + spacing units : Nat) : ℚ) - x| < |(units : ℚ) - x| := by
      rw [abs_of_neg (by linarith : (units : ℚ) - x < 0), abs_lt]
      constructor <;> linarith
    linarith
  rw [hsame] at hodd
  exact hodd (hother.even units h.precise (by omega) htie.symm)

/-- A number is rounded to one magnitude only. -/
theorem unique (h : IsNearest x units) (hother : IsNearest x other) : units = other := by
  have hle := h.not_lt hother
  have hge := hother.not_lt h
  omega

/-- A larger number is not rounded to a smaller magnitude. -/
theorem mono (h : IsNearest x units) (hother : IsNearest y other) (hxy : x ≤ y) :
    units ≤ other := by
  by_contra! hlt
  have hcast : (other : ℚ) < units := by exact_mod_cast hlt
  have hx := h.nearest other hother.precise
  have hy := hother.nearest units h.precise
  -- Both numbers would have to be half-way between the two magnitudes.
  have hxmiddle : (units : ℚ) + other ≤ 2 * x := by
    by_contra! hbelow
    have hfar : |(other : ℚ) - x| < |(units : ℚ) - x| := by
      rw [abs_of_pos (by linarith : (0 : ℚ) < units - x), abs_lt]
      constructor <;> linarith
    linarith
  have hymiddle : 2 * y ≤ (units : ℚ) + other := by
    by_contra! habove
    have hfar : |(units : ℚ) - y| < |(other : ℚ) - y| := by
      rw [abs_of_neg (by linarith : (other : ℚ) - y < 0), abs_lt]
      constructor <;> linarith
    linarith
  have hsame : x = y := by linarith
  rw [hsame] at h
  exact hother.not_lt h hlt

end IsNearest

/-- Different natural numbers are at least one apart. -/
theorem one_le_abs_sub {k m : Nat} (h : k ≠ m) : (1 : ℚ) ≤ |(k : ℚ) - m| := by
  have hint : (1 : ℤ) ≤ |(k : ℤ) - m| := Int.one_le_abs (by omega)
  exact_mod_cast hint

/-- A quotient is rounded to a natural number that no other one is nearer than. -/
theorem abs_roundDiv_sub_le_abs_sub (num : Nat) {den : Nat} (hden : 0 < den) (k : Nat) :
    |(roundDiv num den : ℚ) - num / den| ≤ |(k : ℚ) - num / den| := by
  have hhalf := abs_roundDiv_sub_le num hden
  by_cases hk : k = roundDiv num den
  · rw [hk]
  · have hapart := one_le_abs_sub hk
    have htriangle := abs_sub_le (k : ℚ) (num / den) (roundDiv num den)
    rw [abs_sub_comm ((num : ℚ) / den)] at htriangle
    linarith

/-- A quotient half-way between two natural numbers is rounded to the even one. -/
theorem even_roundDiv (num : Nat) {den : Nat} (hden : 0 < den)
    (htie : |(roundDiv num den : ℚ) - num / den| = 1 / 2) : Even (roundDiv num den) := by
  have hnum := Nat.div_add_mod num den
  have hcast : (0 : ℚ) < den := Nat.cast_pos.mpr hden
  have hquotient : (num : ℚ) / den = (num / den : Nat) + (num % den : Nat) / den := by
    field_simp
    exact_mod_cast hnum.symm
  rw [hquotient] at htie
  have hfraction : (0 : ℚ) ≤ (num % den : Nat) / den := by positivity
  have hless : ((num % den : Nat) : ℚ) / den < 1 := by
    rw [div_lt_one hcast]
    exact_mod_cast Nat.mod_lt num hden
  -- Either way the rest is half of the divisor.
  have hrest : ((num % den : Nat) : ℚ) / den = 1 / 2 → 2 * (num % den) = den := by
    intro hhalf
    rw [div_eq_iff hcast.ne'] at hhalf
    have hdouble : 2 * ((num % den : Nat) : ℚ) = den := by linarith
    exact_mod_cast hdouble
  unfold roundDiv at htie ⊢
  dsimp only at htie ⊢
  split at htie
  · next hdown =>
    rw [sub_add_cancel_left, abs_neg, abs_of_nonneg hfraction] at htie
    have hhalf := hrest htie
    rw [if_pos hdown, Nat.even_iff]
    omega
  · next hup =>
    rw [Nat.cast_succ, add_sub_add_left_eq_sub, abs_of_pos (by linarith)] at htie
    have hhalf := hrest (by linarith)
    rw [if_neg hup, Nat.even_iff]
    omega

variable {num den e : Nat}

/-- Distances between multiples of a power of two are distances between natural numbers. -/
theorem abs_mul_two_pow_sub (num : Nat) (hden : 0 < den) (e k : Nat) :
    |((k * 2 ^ e : Nat) : ℚ) - num / den| = |(k : ℚ) - num / (den * 2 ^ e : Nat)| * 2 ^ e := by
  have hcast : (0 : ℚ) < den := Nat.cast_pos.mpr hden
  have hstep : (0 : ℚ) < 2 ^ e := by positivity
  have heq : ((k * 2 ^ e : Nat) : ℚ) - num / den =
      ((k : ℚ) - num / (den * 2 ^ e : Nat)) * 2 ^ e := by
    push_cast
    field_simp
  rw [heq, abs_mul, abs_of_pos hstep]

/-- No multiple of the step is nearer than the rounded one. -/
theorem abs_roundDiv_mul_sub_le (num : Nat) (hden : 0 < den) (e k : Nat) :
    |((roundDiv num (den * 2 ^ e) * 2 ^ e : Nat) : ℚ) - num / den| ≤
      |((k * 2 ^ e : Nat) : ℚ) - num / den| := by
  have hpos : 0 < den * 2 ^ e := Nat.mul_pos hden (Nat.two_pow_pos e)
  rw [abs_mul_two_pow_sub num hden, abs_mul_two_pow_sub num hden]
  exact mul_le_mul_of_nonneg_right (abs_roundDiv_sub_le_abs_sub num hpos k) (by positivity)

/-- If another multiple of the step is equally near, the rounded one is an even multiple. -/
theorem even_roundDiv_of_tie (hden : 0 < den) {k : Nat}
    (hne : k * 2 ^ e ≠ roundDiv num (den * 2 ^ e) * 2 ^ e)
    (htie : |((k * 2 ^ e : Nat) : ℚ) - num / den| =
      |((roundDiv num (den * 2 ^ e) * 2 ^ e : Nat) : ℚ) - num / den|) :
    Even (roundDiv num (den * 2 ^ e)) := by
  have hpos : 0 < den * 2 ^ e := Nat.mul_pos hden (Nat.two_pow_pos e)
  have hstep : (2 : ℚ) ^ e ≠ 0 := by positivity
  apply even_roundDiv num hpos
  rw [abs_mul_two_pow_sub num hden, abs_mul_two_pow_sub num hden] at htie
  have hsame := mul_right_cancel₀ hstep htie
  have hhalf := abs_roundDiv_sub_le num hpos
  have hdifferent : k ≠ roundDiv num (den * 2 ^ e) := fun heq => hne (by rw [heq])
  generalize roundDiv num (den * 2 ^ e) = rounded at *
  have hapart := one_le_abs_sub hdifferent
  have htriangle := abs_sub_le (k : ℚ) (num / (den * 2 ^ e : Nat)) rounded
  rw [abs_sub_comm ((num : ℚ) / (den * 2 ^ e : Nat))] at htriangle
  linarith

/-- What is precise but no multiple of the step lies below the multiples that are rounded to, and
farther from the quotient. -/
theorem lt_abs_sub_of_not_dvd (hden : 0 < den) (hlarge : e = 0 ∨ 2 ^ 52 * 2 ^ e ≤ num / den)
    {other : Nat} (hother : Precise other) (hnot : ¬2 ^ e ∣ other) :
    |((roundDiv num (den * 2 ^ e) * 2 ^ e : Nat) : ℚ) - num / den| < |(other : ℚ) - num / den| := by
  have hlt : (other : ℚ) < (2 ^ 52 * 2 ^ e : Nat) :=
    Nat.cast_lt.mpr ((hother.dvd_or_lt e).resolve_left hnot)
  have hle : 2 ^ 52 * 2 ^ e ≤ num / den := by
    rcases hlarge with rfl | hle
    · exact absurd (Nat.one_dvd other) hnot
    · exact hle
  have hexact : ((2 ^ 52 * 2 ^ e : Nat) : ℚ) ≤ num / den :=
    (Nat.cast_le.mpr hle).trans Nat.cast_div_le
  refine (abs_roundDiv_mul_sub_le num hden e (2 ^ 52)).trans_lt ?_
  rw [abs_sub_comm, abs_sub_comm (other : ℚ), abs_of_nonneg (sub_nonneg.mpr hexact),
    abs_of_nonneg (sub_nonneg.mpr (hlt.le.trans hexact))]
  exact sub_lt_sub_left hlt _

/-- An even multiple of the step has an even significand. -/
theorem even_significand_of_even {m : Nat} (heven : Even m) (hm : m ≤ 2 ^ 53)
    (hlow : e = 0 ∨ 2 ^ 52 ≤ m) : Even (significand (m * 2 ^ e)) := by
  by_cases htop : m = 2 ^ 53
  · -- There is one bit too many, and the significand is a power of two.
    have hcarry : m * 2 ^ e = 2 ^ 52 * 2 ^ (e + 1) := by
      rw [htop, Nat.pow_succ]
      ring
    rw [hcarry, significand, spacing_mul_two_pow (by decide) (.inr (Nat.le_refl _)),
      Nat.mul_div_cancel _ (Nat.two_pow_pos _)]
    decide
  · rwa [significand, spacing_mul_two_pow (by omega) hlow, Nat.mul_div_cancel _ (Nat.two_pow_pos e)]

/-- A quotient of more bits is rounded to a step of more than one unit. -/
theorem step_eq_one_or_le (quotient : Nat) :
    quotient.log2 - 52 = 0 ∨ 2 ^ 52 * 2 ^ (quotient.log2 - 52) ≤ quotient := by
  by_cases hbits : quotient.log2 ≤ 52
  · exact .inl (by omega)
  · have hquotient : quotient ≠ 0 := by
      rintro rfl
      simp at hbits
    right
    rw [← Nat.pow_add, Nat.add_sub_cancel' (by omega)]
    exact Nat.log2_self_le hquotient

/-- In units of its step a quotient is rounded to a number of 53 bits, or to the next one. -/
theorem roundDiv_range (hlarge : e = 0 ∨ 2 ^ 52 * 2 ^ e ≤ num / den)
    (hbits : num / den < 2 ^ 53 * 2 ^ e) :
    roundDiv num (den * 2 ^ e) ≤ 2 ^ 53 ∧ (e = 0 ∨ 2 ^ 52 ≤ roundDiv num (den * 2 ^ e)) := by
  have hquotient : num / (den * 2 ^ e) = num / den / 2 ^ e := (Nat.div_div_eq_div_mul _ _ _).symm
  have hhigh : num / (den * 2 ^ e) < 2 ^ 53 := by
    rw [hquotient, Nat.div_lt_iff_lt_mul (Nat.two_pow_pos e)]
    exact hbits
  have hle := roundDiv_le num (den * 2 ^ e)
  refine ⟨by omega, hlarge.imp_right fun hlow => ?_⟩
  have hdiv : 2 ^ 52 ≤ num / (den * 2 ^ e) := by
    rw [hquotient]
    exact (Nat.le_div_iff_mul_le (Nat.two_pow_pos e)).mpr hlow
  unfold roundDiv
  dsimp only
  split <;> omega

/-- A rounded quotient is the nearest precise magnitude. -/
theorem isNearest_roundUnits (num : Nat) (hden : 0 < den) :
    IsNearest (num / den) (roundUnits num den) := by
  have hprecise : Precise (roundUnits num den) := dvd_roundUnits num den
  have hlarge := step_eq_one_or_le (num / den)
  obtain ⟨hhigh, hlow⟩ := roundDiv_range hlarge (lt_mul_spacing (num / den))
  unfold roundUnits at hprecise ⊢
  dsimp only at hprecise ⊢
  simp only [Nat.pow_eq] at hprecise ⊢
  generalize (num / den).log2 - 52 = e at *
  refine ⟨hprecise, fun other hother => ?_, fun other hother hne htie => ?_⟩
  · by_cases hdvd : 2 ^ e ∣ other
    · obtain ⟨k, rfl⟩ := hdvd
      rw [Nat.mul_comm (2 ^ e) k]
      exact abs_roundDiv_mul_sub_le num hden e k
    · exact (lt_abs_sub_of_not_dvd hden hlarge hother hdvd).le
  · by_cases hdvd : 2 ^ e ∣ other
    · obtain ⟨k, rfl⟩ := hdvd
      rw [Nat.mul_comm (2 ^ e) k] at hne htie
      exact even_significand_of_even (even_roundDiv_of_tie hden hne htie) hhigh hlow
    · exact absurd htie (lt_abs_sub_of_not_dvd hden hlarge hother hdvd).ne'

/-- What lies between a magnitude and a number that is rounded to it is rounded to it as well. -/
theorem IsNearest.of_between {x : ℚ} {units : Nat} (h : IsNearest x units) (hden : 0 < den)
    (hbetween : x ≤ num / den ∧ (num : ℚ) / den ≤ units ∨ units ≤ (num : ℚ) / den ∧ num / den ≤ x) :
    IsNearest (num / den) units := by
  have hrounded := isNearest_roundUnits num hden
  have hsame : roundUnits num den = units := by
    rcases hbetween with ⟨hlow, hhigh⟩ | ⟨hlow, hhigh⟩
    · exact le_antisymm (hrounded.mono h.precise.isNearest hhigh) (h.mono hrounded hlow)
    · exact le_antisymm (hrounded.mono h hhigh) (h.precise.isNearest.mono hrounded hlow)
  rwa [hsame] at hrounded

/-- What is off by less than 2^-54 of a magnitude is rounded to it. -/
theorem Precise.isNearest_of_close {units : Nat} (h : Precise units) (hden : 0 < den)
    (hclose : 2 ^ 54 * |(units : ℚ) - num / den| < units) : IsNearest (num / den) units := by
  have hrounded := isNearest_roundUnits num hden
  have hnearest := hrounded.nearest units h
  suffices hsame : roundUnits num den = units by rwa [hsame] at hrounded
  generalize roundUnits num den = rounded at *
  have htriangle := abs_sub_le (rounded : ℚ) (num / den) units
  rw [abs_sub_comm ((num : ℚ) / den)] at htriangle
  by_contra hne
  rcases Nat.lt_or_gt_of_ne hne with hlt | hgt
  · have hgap := hrounded.precise.le_mul_sub h hlt
    have hcast : (2 : ℚ) ^ 53 * rounded + units ≤ 2 ^ 53 * units := by exact_mod_cast hgap
    have hapart := neg_abs_le ((rounded : ℚ) - units)
    linarith
  · have hgap := h.le_mul_sub hrounded.precise hgt
    have hcast : (2 : ℚ) ^ 53 * units + rounded ≤ 2 ^ 53 * rounded := by exact_mod_cast hgap
    have hlt : (units : ℚ) < rounded := by exact_mod_cast hgt
    have hapart := le_abs_self ((rounded : ℚ) - units)
    linarith

/-- A quotient is rounded to a magnitude if and only if that is the nearest precise one. -/
theorem roundUnits_eq_iff {units : Nat} (hden : 0 < den) :
    roundUnits num den = units ↔ IsNearest (num / den) units := by
  constructor
  · rintro rfl
    exact isNearest_roundUnits num hden
  · exact (isNearest_roundUnits num hden).unique

end LoginService.Binary64
