import LoginService.Decimal
import LoginService.Proofs.Digits
import Mathlib.Algebra.Order.Field.Power
import Mathlib.Data.Nat.Multiplicity
import Mathlib.Tactic.FieldSimp
import Mathlib.Tactic.Positivity
import Mathlib.Tactic.Ring

/-!
# Decimals as numbers

Every decimal other than zero is a natural number that does not end in a zero, scaled by a power of
ten. Its digits are those of that number, and its scientific exponent is that of its first digit, so
what is written for a decimal depends on nothing but its value. The layouts are listed without
reference to how they are chosen.
-/

namespace LoginService

namespace Digits

/-- A number of that many digits is not smaller than the power of ten of the first of them. -/
theorem pow_length_toDigits_le {n : Nat} (h : n ≠ 0) :
    10 ^ ((Nat.toDigits 10 n).length - 1) ≤ n := by
  by_contra! hlt
  have hpos := Nat.length_toDigits_pos (b := 10) (n := n)
  by_cases hone : (Nat.toDigits 10 n).length = 1
  · have hzero : n = 0 := by simpa [hone] using hlt
    exact h hzero
  · have hle := (Nat.length_toDigits_le_iff (by decide) (by omega)).mpr hlt
    omega

/-- A number is below the power of ten of the count of its digits. -/
theorem lt_pow_length_toDigits (n : Nat) : n < 10 ^ (Nat.toDigits 10 n).length :=
  (Nat.length_toDigits_le_iff (by decide) Nat.length_toDigits_pos).mp (Nat.le_refl _)

/-- A number scaled by a power of ten has its digits and that many zeros. -/
theorem toDigits_mul_pow_ten {n : Nat} (h : n ≠ 0) (zeros : Nat) :
    Nat.toDigits 10 (n * 10 ^ zeros) = Nat.toDigits 10 n ++ List.replicate zeros '0' := by
  induction zeros with
  | zero => simp
  | succ zeros ih =>
    have hpos : 0 < n * 10 ^ zeros := Nat.mul_pos (by omega) (Nat.pow_pos (by decide))
    have hscaled : n * 10 ^ (zeros + 1) = 10 * (n * 10 ^ zeros) + 0 := by
      rw [Nat.pow_succ]
      ring
    rw [hscaled, ← Nat.toDigits_append_toDigits (by decide) hpos (by decide), ih,
      List.append_assoc, List.replicate_succ']
    rfl

/-- A number that is no multiple of ten does not end in a zero. -/
theorem toDigits_eq_append {n : Nat} (h : ¬10 ∣ n) :
    ∃ front last, Nat.toDigits 10 n = front ++ [last] ∧ last ≠ '0' := by
  have hrest : n % 10 ≠ 0 := by omega
  have hlast := digitChar_ne_zero hrest (Nat.mod_lt n (by decide))
  by_cases hsmall : n < 10
  · rw [Nat.mod_eq_of_lt hsmall] at hlast
    exact ⟨[], _, Nat.toDigits_of_lt_base hsmall, hlast⟩
  · exact ⟨_, _, Nat.toDigits_of_base_le (by decide) (by omega), hlast⟩

end Digits

namespace Decimal

/-- The number that a decimal is. -/
def toRat (d : Decimal) : ℚ := d.coefficient * 10 ^ d.exponent

/-- A decimal other than zero, by a number that does not end in a zero and the power of ten of its
last digit. -/
structure Normal (d : Decimal) (c : Nat) (exponent : Int) : Prop where
  /-- The number does not end in a zero. -/
  not_dvd : ¬10 ∣ c
  /-- Its digits are those of the decimal. -/
  digits : d.digits = Nat.toDigits 10 c
  /-- Scaled, it is the decimal. -/
  toRat : d.toRat = c * 10 ^ exponent
  /-- The first of its digits has the scientific exponent. -/
  scientific : d.scientificExponent = exponent + ((Nat.toDigits 10 c).length - 1 : Nat)

/-- A decimal has at least one digit. -/
theorem digits_ne_nil (d : Decimal) : d.digits ≠ [] := by
  unfold digits
  split
  · exact List.cons_ne_nil _ _
  · next hne => exact hne

/-- The zeros at the end of the coefficient are not among the digits. -/
theorem digits_of_coefficient_eq {d : Decimal} {c zeros : Nat} (hc : ¬10 ∣ c)
    (h : d.coefficient = c * 10 ^ zeros) : d.digits = Nat.toDigits 10 c := by
  have hpos : c ≠ 0 := by
    rintro rfl
    exact hc (Nat.dvd_zero 10)
  obtain ⟨front, last, hdigits, hlast⟩ := Digits.toDigits_eq_append hc
  have hkept : (Nat.toDigits 10 d.coefficient).reverse.dropWhile (· = '0') =
      last :: front.reverse := by
    rw [h, Digits.toDigits_mul_pow_ten hpos, hdigits, List.reverse_append, List.reverse_replicate,
      List.dropWhile_append_of_pos (by simp), List.reverse_append]
    simp [hlast]
  rw [digits, hkept, hdigits, List.reverse_cons, List.reverse_reverse]
  cases front <;> rfl

/-- Every decimal other than zero has a normal form. -/
theorem exists_normal {d : Decimal} (h : d.coefficient ≠ 0) :
    ∃ c exponent, d.Normal c exponent := by
  obtain ⟨zeros, c, hc, hcoefficient⟩ := Nat.exists_eq_pow_mul_and_not_dvd h 10 (by decide)
  rw [Nat.mul_comm] at hcoefficient
  have hpos : c ≠ 0 := by
    rintro rfl
    exact hc (Nat.dvd_zero 10)
  refine ⟨c, d.exponent + zeros, hc, digits_of_coefficient_eq hc hcoefficient, ?_, ?_⟩
  · have hten : (10 : ℚ) ≠ 0 := by norm_num
    rw [Decimal.toRat, hcoefficient, zpow_add₀ hten, zpow_natCast]
    push_cast
    ring
  · have hcount := Nat.length_toDigits_pos (b := 10) (n := c)
    rw [scientificExponent, hcoefficient, Digits.toDigits_mul_pow_ten hpos, List.length_append,
      List.length_replicate]
    omega

namespace Normal

variable {d other : Decimal} {c c' : Nat} {exponent exponent' : Int}

/-- The number of a normal form is not zero. -/
theorem ne_zero (h : d.Normal c exponent) : c ≠ 0 := by
  rintro rfl
  exact h.not_dvd (Nat.dvd_zero 10)

/-- A decimal has at most as many digits as its number has. -/
theorem length_digits_le_iff (h : d.Normal c exponent) {count : Nat} (hcount : 0 < count) :
    d.digits.length ≤ count ↔ c < 10 ^ count := by
  rw [h.digits, Nat.length_toDigits_le_iff (by decide) hcount]

/-- The scientific exponent is that of a power of ten which the decimal reaches, while it does not
reach the next. -/
theorem bounds (h : d.Normal c exponent) :
    (10 : ℚ) ^ d.scientificExponent ≤ d.toRat ∧ d.toRat < 10 ^ (d.scientificExponent + 1) := by
  have hten : (10 : ℚ) ≠ 0 := by norm_num
  have hpower : (0 : ℚ) < 10 ^ exponent := zpow_pos (by norm_num) _
  have hcount := Nat.length_toDigits_pos (b := 10) (n := c)
  have hlow : ((10 ^ ((Nat.toDigits 10 c).length - 1) : Nat) : ℚ) ≤ c :=
    Nat.cast_le.mpr (Digits.pow_length_toDigits_le h.ne_zero)
  have hhigh : (c : ℚ) < ((10 ^ (Nat.toDigits 10 c).length : Nat) : ℚ) :=
    Nat.cast_lt.mpr (Digits.lt_pow_length_toDigits c)
  push_cast at hlow hhigh
  have hnext : d.scientificExponent + 1 = exponent + (Nat.toDigits 10 c).length := by
    rw [h.scientific]
    omega
  rw [h.toRat]
  constructor
  · rw [h.scientific, zpow_add₀ hten, zpow_natCast, mul_comm]
    exact mul_le_mul_of_nonneg_right hlow hpower.le
  · rw [hnext, zpow_add₀ hten, zpow_natCast, mul_comm (10 ^ exponent)]
    exact mul_lt_mul_of_pos_right hhigh hpower

/-- Numbers that do not end in a zero are equal once scaled only if they are the same number at the
same power of ten. -/
theorem unique (h : d.Normal c exponent) (hother : other.Normal c' exponent')
    (heq : d.toRat = other.toRat) : c = c' ∧ exponent = exponent' := by
  -- The smaller exponent would leave a zero at the end of its number.
  have hle : ∀ {d e : Decimal} {m k : Nat} {i j : Int}, d.Normal m i → e.Normal k j →
      d.toRat = e.toRat → j ≤ i := by
    intro d e m k i j hm hk heq
    by_contra! hlt
    obtain ⟨n, rfl⟩ : ∃ n : Nat, j = i + (n + 1 : Nat) := ⟨(j - i - 1).toNat, by omega⟩
    have hten : (10 : ℚ) ≠ 0 := by norm_num
    rw [hm.toRat, hk.toRat, zpow_add₀ hten, zpow_natCast, mul_comm (10 ^ i), ← mul_assoc] at heq
    have hcast := mul_right_cancel₀ (zpow_ne_zero i hten) heq
    have hnat : m = k * 10 ^ (n + 1) := by exact_mod_cast hcast
    exact hm.not_dvd (hnat ▸ Nat.dvd_mul_left_of_dvd (Nat.dvd_mul_left 10 (10 ^ n)) k)
  have hexponent : exponent = exponent' := le_antisymm (hle hother h heq.symm) (hle h hother heq)
  subst hexponent
  rw [h.toRat, hother.toRat] at heq
  have hcast := mul_right_cancel₀ (zpow_ne_zero exponent (by norm_num)) heq
  exact ⟨by exact_mod_cast hcast, rfl⟩

end Normal

/-- The first digit of a decimal has a power of ten or more exactly if the decimal reaches that
power. -/
theorem le_scientificExponent_iff {d : Decimal} (h : d.coefficient ≠ 0) {k : Int} :
    k ≤ d.scientificExponent ↔ (10 : ℚ) ^ k ≤ d.toRat := by
  obtain ⟨c, exponent, hc⟩ := exists_normal h
  obtain ⟨hlow, hhigh⟩ := hc.bounds
  have hten : (1 : ℚ) < 10 := by norm_num
  constructor
  · intro hk
    exact (zpow_le_zpow_right₀ hten.le hk).trans hlow
  · intro hk
    have hlt := (zpow_lt_zpow_iff_right₀ hten).mp (hk.trans_lt hhigh)
    omega

/-- The digits of a decimal other than zero begin with another digit than zero. -/
theorem digits_eq_cons {d : Decimal} (h : d.coefficient ≠ 0) :
    ∃ first rest, d.digits = first :: rest ∧ first ≠ '0' ∧ ∀ c ∈ first :: rest, c.isDigit := by
  obtain ⟨c, exponent, hc⟩ := exists_normal h
  obtain ⟨first, rest, hcons, hfirst⟩ := Digits.toDigits_eq_cons hc.ne_zero
  have hdigits := hc.digits.trans hcons
  refine ⟨first, rest, hdigits, hfirst, fun digit hdigit => ?_⟩
  rw [← hcons] at hdigit
  exact Digits.isDigit_of_mem_toDigits hdigit

/-- A decimal is zero if and only if its coefficient is. -/
theorem toRat_eq_zero_iff {d : Decimal} : d.toRat = 0 ↔ d.coefficient = 0 := by
  have hpower : (10 : ℚ) ^ d.exponent ≠ 0 := zpow_ne_zero _ (by norm_num)
  rw [toRat, mul_eq_zero_iff_right hpower, Nat.cast_eq_zero]

/-- A decimal whose coefficient is at most a power of ten has no more digits than that power
counts. -/
theorem length_digits_le {d : Decimal} {count : Nat} (h : d.coefficient ≠ 0) (hcount : 0 < count)
    (hle : d.coefficient ≤ 10 ^ count) : d.digits.length ≤ count := by
  rcases Nat.lt_or_eq_of_le hle with hlt | heq
  · obtain ⟨zeros, c, hc, hcoefficient⟩ := Nat.exists_eq_pow_mul_and_not_dvd h 10 (by decide)
    rw [digits_of_coefficient_eq hc (Nat.mul_comm _ _ ▸ hcoefficient),
      Nat.length_toDigits_le_iff (by decide) hcount]
    have hsmaller : c ≤ 10 ^ zeros * c := Nat.le_mul_of_pos_left c (Nat.pow_pos (by decide))
    omega
  · have hone : d.digits = Nat.toDigits 10 1 :=
      digits_of_coefficient_eq (by decide) (heq.trans (Nat.one_mul _).symm)
    rw [hone]
    exact hcount

/-- Decimals of one value have the same digits and the same scientific exponent. -/
theorem eq_of_toRat_eq {d other : Decimal} (h : d.coefficient ≠ 0) (heq : d.toRat = other.toRat) :
    d.digits = other.digits ∧ d.scientificExponent = other.scientificExponent := by
  have hother : other.coefficient ≠ 0 := by
    intro hzero
    rw [← toRat_eq_zero_iff, ← heq, toRat_eq_zero_iff] at hzero
    exact h hzero
  obtain ⟨c, exponent, hc⟩ := exists_normal h
  obtain ⟨c', exponent', hc'⟩ := exists_normal hother
  obtain ⟨rfl, rfl⟩ := hc.unique hc' heq
  exact ⟨hc.digits.trans hc'.digits.symm, hc.scientific.trans hc'.scientific.symm⟩

/-- Decimals of one value have one text. -/
theorem text_eq_of_toRat_eq {d other : Decimal} (h : d.coefficient ≠ 0)
    (heq : d.toRat = other.toRat) : d.text = other.text := by
  obtain ⟨hdigits, hexponent⟩ := eq_of_toRat_eq h heq
  rw [text, text, hdigits, hexponent]

/-- Digits with a point behind the first, if there are more. -/
def pointed : List Char → List Char
  | first :: second :: rest => first :: '.' :: second :: rest
  | digits => digits

/-- How digits are written if the first of them has the given power of ten: in plain notation, with
digits on both sides of a point, while the exponent is between -5 and 15, and in scientific notation
otherwise. -/
inductive Layout (digits : List Char) : Int → List Char → Prop where
  /-- The digits stand behind a point and further zeros. -/
  | belowOne {zeros : Nat} (h : zeros < 5) :
      Layout digits (-(zeros + 1 : Nat)) ('0' :: '.' :: (List.replicate zeros '0' ++ digits))
  /-- The digits stand before the point, with zeros up to it and one behind it. -/
  | whole {zeros : Nat} (hlength : digits.length + zeros ≤ 16) (hdigits : digits ≠ []) :
      Layout digits (digits.length + zeros - 1 : Int)
        (digits ++ List.replicate zeros '0' ++ ['.', '0'])
  /-- The digits stand on both sides of the point. -/
  | mixed {front back : List Char} (hdigits : digits = front ++ back) (hfront : front ≠ [])
      (hback : back ≠ []) (hlength : front.length ≤ 16) :
      Layout digits (front.length - 1 : Int) (front ++ '.' :: back)
  /-- A large number is written with a positive exponent. -/
  | large {exponent : Nat} (h : 15 < exponent) :
      Layout digits exponent (pointed digits ++ 'e' :: '+' :: Nat.toDigits 10 exponent)
  /-- A small number is written with a negative exponent. -/
  | small {exponent : Nat} (h : 5 < exponent) :
      Layout digits (-exponent) (pointed digits ++ 'e' :: '-' :: Nat.toDigits 10 exponent)

/-- Digits before a point, and as many zeros or further digits as there have to be, are laid out in
plain notation. -/
theorem layout_withPoint {digits : List Char} {count : Nat} (hdigits : digits ≠ [])
    (hcount : 0 < count) (hle : count ≤ 16) :
    Layout digits (count - 1 : Int) (withPoint digits count) := by
  have hlength := List.length_pos_of_ne_nil hdigits
  by_cases hall : digits.length ≤ count
  · have hwhole : Layout digits (digits.length + (count - digits.length : Nat) - 1 : Int)
        (digits ++ List.replicate (count - digits.length) '0' ++ ['.', '0']) :=
      .whole (by omega) hdigits
    have hexponent : (digits.length + (count - digits.length : Nat) - 1 : Int) = count - 1 := by
      omega
    rw [hexponent] at hwhole
    simpa [withPoint, List.take_of_length_le hall, List.drop_of_length_le hall] using hwhole
  · have hfront : (digits.take count).length = count := by
      rw [List.length_take]
      omega
    have hback : digits.drop count ≠ [] := by
      rw [ne_eq, List.drop_eq_nil_iff]
      omega
    have hmixed := Layout.mixed (List.take_append_drop count digits).symm
      (List.ne_nil_of_length_pos (by omega)) hback (by omega)
    have hzeros : count - digits.length = 0 := by omega
    rw [hfront] at hmixed
    simpa [withPoint, hzeros, hback] using hmixed

/-- Digits in scientific notation are laid out with the sign of their exponent. -/
theorem layout_scientific {digits : List Char} {exponent : Int}
    (h : exponent < -5 ∨ 15 < exponent) : Layout digits exponent (scientific digits exponent) := by
  have hpointed : scientific digits exponent = pointed digits ++
      'e' :: (if exponent < 0 then '-' else '+') :: Nat.toDigits 10 exponent.natAbs := by
    rcases digits with _ | ⟨first, _ | ⟨second, rest⟩⟩ <;> rfl
  rw [hpointed]
  rcases h with hsmall | hlarge
  · obtain ⟨n, rfl⟩ : ∃ n : Nat, exponent = -n := ⟨exponent.natAbs, by omega⟩
    rw [if_pos (by omega), Int.natAbs_neg, Int.natAbs_natCast]
    exact .small (by omega)
  · obtain ⟨n, rfl⟩ : ∃ n : Nat, exponent = n := ⟨exponent.natAbs, by omega⟩
    rw [if_neg (by omega), Int.natAbs_natCast]
    exact .large (by omega)

/-- The text of a decimal lays out its digits. -/
theorem layout_text (d : Decimal) : Layout d.digits d.scientificExponent d.text := by
  have hdigits := d.digits_ne_nil
  unfold text
  dsimp only
  generalize d.scientificExponent = exponent
  split
  · next hsmall =>
    obtain ⟨zeros, rfl⟩ : ∃ zeros : Nat, exponent = -(zeros + 1 : Nat) :=
      ⟨(-exponent - 1).toNat, by omega⟩
    have hzeros : (- -((zeros + 1 : Nat) : Int) - 1).toNat = zeros := by omega
    rw [hzeros]
    exact .belowOne (by omega)
  · split
    · next hplain =>
      have hlayout : Layout d.digits (((exponent + 1).toNat : Nat) - 1 : Int)
          (withPoint d.digits (exponent + 1).toNat) :=
        layout_withPoint hdigits (by omega) (by omega)
      have hexponent : (((exponent + 1).toNat : Nat) : Int) - 1 = exponent := by omega
      rwa [hexponent] at hlayout
    · exact layout_scientific (by omega)

end Decimal

end LoginService
