import LoginService.Json.Number
import LoginService.Proofs.Binary64.Scale
import LoginService.Proofs.Digits
import LoginService.Proofs.Json.Numeral
import Mathlib.Tactic.Positivity

/-!
# The value of a numeral and the double it is read as

A numeral has an exact value. Its significand, scaled by a power of ten, is close to that value even
where digits are dropped, because digits are dropped only after the significand is large. The double
that the numeral is read as is close to the scaled significand.
-/

namespace LoginService.Json.Numeral

/-- The number that a run of digits writes. -/
def digitsValue (digits : List Char) : Nat :=
  Nat.ofDigitChars 10 digits 0

/-- The exponent that an explicit exponent writes. -/
def exponentValue : Option Exponent → Int
  | none => 0
  | some e => if e.negative then -digitsValue e.digits else digitsValue e.digits

/-- The digits of a numeral as a number, without its exponent. -/
def mantissa (n : Numeral) : ℚ :=
  digitsValue n.whole + digitsValue n.fraction / 10 ^ n.fraction.length

/-- The exact magnitude of a numeral. -/
def magnitude (n : Numeral) : ℚ :=
  n.mantissa * 10 ^ exponentValue n.exponent

/-- The exact value of a numeral. -/
def value (n : Numeral) : ℚ :=
  if n.negative then -n.magnitude else n.magnitude

/-- The first of two runs of digits weighs more, by the power of ten of the length of the second. -/
theorem digitsValue_append (front back : List Char) :
    digitsValue (front ++ back) = digitsValue front * 10 ^ back.length + digitsValue back := by
  rw [digitsValue, Nat.ofDigitChars_append, Nat.ofDigitChars_eq_ofDigitChars_zero, Nat.mul_comm]
  rfl

/-- A digit writes the number that it stands for. -/
theorem digitsValue_singleton (digit : Char) : digitsValue [digit] = Digits.value digit := by
  rw [digitsValue, Nat.ofDigitChars_cons, Nat.ofDigitChars_nil, Nat.mul_zero, Nat.zero_add]
  rfl

/-- Digits write a number below the power of ten of their count. -/
theorem digitsValue_lt {digits : List Char} (h : ∀ c ∈ digits, c.isDigit) :
    digitsValue digits < 10 ^ digits.length := by
  induction digits with
  | nil => exact Nat.one_pos
  | cons digit digits ih =>
    have hfirst := Digits.value_lt_ten (h digit List.mem_cons_self)
    have hrest := ih fun c hc => h c (List.mem_cons_of_mem digit hc)
    have hsplit := digitsValue_append [digit] digits
    rw [digitsValue_singleton, List.singleton_append] at hsplit
    calc
      digitsValue (digit :: digits) < (Digits.value digit + 1) * 10 ^ digits.length := by
        rw [hsplit, Nat.succ_mul]
        omega
      _ ≤ 10 * 10 ^ digits.length := Nat.mul_le_mul_right _ hfirst
      _ = 10 ^ (digit :: digits).length := by rw [List.length_cons, Nat.pow_succ, Nat.mul_comm]

/-- Digits behind a point write less than one. -/
theorem fraction_lt_one {digits : List Char} (h : ∀ c ∈ digits, c.isDigit) :
    (digitsValue digits : ℚ) / 10 ^ digits.length < 1 := by
  rw [div_lt_one (by positivity)]
  exact_mod_cast digitsValue_lt h

variable {n : Numeral}

/-- Which digits of a numeral are gathered: those in `used` and `kept`, before and behind the point.
Digits are left out only after the significand is large. -/
structure GatheredFrom (n : Numeral) (used leftOut kept unused : List Char) : Prop where
  whole : n.whole = used ++ leftOut
  fraction : n.fraction = kept ++ unused
  significand : n.significand = ⟨digitsValue (used ++ kept), leftOut.length - kept.length⟩
  large_used : leftOut ≠ [] → 2 ^ 60 ≤ digitsValue used
  large_kept : unused ≠ [] → 2 ^ 60 ≤ digitsValue (used ++ kept)

/-- A number that another digit would take past the greatest significand is large. -/
theorem le_of_passed {m : Nat} {left : List Char} (hdigits : ∀ c ∈ left, c.isDigit)
    (hpassed : ∀ digit ∈ left.head?, greatestSignificand < 10 * m + Digits.value digit)
    (hne : left ≠ []) : 2 ^ 60 ≤ m := by
  obtain ⟨digit, rest, rfl⟩ := List.exists_cons_of_ne_nil hne
  have hlt := Digits.value_lt_ten (hdigits digit List.mem_cons_self)
  have hlimit := hpassed digit rfl
  rw [greatestSignificand] at hlimit
  omega

/-- The digits of a numeral are gathered in this way. -/
theorem exists_gatheredFrom (hwhole : ∀ c ∈ n.whole, c.isDigit)
    (hfraction : ∀ c ∈ n.fraction, c.isDigit) :
    ∃ used leftOut kept unused, n.GatheredFrom used leftOut kept unused := by
  cases hfirst : Digits.gather greatestSignificand 0 n.whole with
  | mk number leftOut =>
  cases hsecond : Digits.gather greatestSignificand number n.fraction with
  | mk m unused =>
  obtain ⟨used, hused, hnumber, hpassed⟩ := Digits.of_gather hfirst
  obtain ⟨kept, hkept, hm, hpassedToo⟩ := Digits.of_gather hsecond
  have hcoefficient : m = digitsValue (used ++ kept) := by
    rw [hm, hnumber, digitsValue, Nat.ofDigitChars_append]
  have hlength : n.fraction.length - unused.length = kept.length := by
    rw [hkept, List.length_append, Nat.add_sub_cancel]
  have hleftOut : ∀ c ∈ leftOut, c.isDigit := fun c hc =>
    hwhole c (hused ▸ List.mem_append_right used hc)
  have hunused : ∀ c ∈ unused, c.isDigit := fun c hc =>
    hfraction c (hkept ▸ List.mem_append_right kept hc)
  refine ⟨used, leftOut, kept, unused, hused, hkept, ?_, ?_, ?_⟩
  · simp only [Numeral.significand, hfirst, hsecond, hlength, hcoefficient]
  · intro hne
    rw [digitsValue, ← hnumber]
    exact le_of_passed hleftOut hpassed hne
  · intro hne
    rw [← hcoefficient]
    exact le_of_passed hunused hpassedToo hne

/-- What two numbers have on top of a large base hardly tells them apart. -/
theorem near_of_common_base {base step x y : ℚ} (hbase : 2 ^ 60 * step ≤ base) (hx : 0 ≤ x)
    (hxs : x ≤ step) (hy : 0 ≤ y) (hys : y ≤ step) :
    Near (1 / 2 ^ 60) 0 (base + x) (base + y) := by
  have hdistance : |base + x - (base + y)| ≤ step := by
    rw [abs_le]
    constructor <;> linarith
  refine hdistance.trans ?_
  norm_num at hbase ⊢
  linarith

namespace GatheredFrom

variable {used leftOut kept unused : List Char}

/-- The digits that are kept behind the point weigh less than one. -/
theorem kept_lt_one (h : n.GatheredFrom used leftOut kept unused)
    (hfraction : ∀ c ∈ n.fraction, c.isDigit) :
    (digitsValue kept : ℚ) / 10 ^ kept.length < 1 :=
  fraction_lt_one fun c hc => hfraction c (h.fraction ▸ List.mem_append_left unused hc)

/-- Where all digits before the point are gathered, the significand is close to the numeral, because
the others follow behind those that are kept. -/
theorem near_of_all_used (h : n.GatheredFrom used [] kept unused)
    (hfraction : ∀ c ∈ n.fraction, c.isDigit) :
    Near (1 / 2 ^ 60) 0 ((digitsValue used * 10 ^ kept.length + digitsValue kept) *
      (1 / 10 ^ kept.length)) n.mantissa := by
  have hunused : (digitsValue unused : ℚ) / 10 ^ unused.length < 1 :=
    fraction_lt_one fun c hc => hfraction c (h.fraction ▸ List.mem_append_right kept hc)
  have hscaled : ((digitsValue used : ℚ) * 10 ^ kept.length + digitsValue kept) *
      (1 / 10 ^ kept.length) = digitsValue used + digitsValue kept / 10 ^ kept.length + 0 := by
    field_simp
    ring
  have hexact : n.mantissa = digitsValue used + digitsValue kept / 10 ^ kept.length +
      digitsValue unused / 10 ^ unused.length / 10 ^ kept.length := by
    rw [mantissa, h.whole, List.append_nil, h.fraction, digitsValue_append, List.length_append,
      pow_add]
    push_cast
    field_simp
    ring
  rw [hscaled, hexact]
  refine near_of_common_base ?_ le_rfl (by positivity) (by positivity) le_rfl
  by_cases hnone : unused = []
  · rw [hnone, digitsValue, Nat.ofDigitChars_nil]
    simp only [Nat.cast_zero, zero_div, mul_zero]
    positivity
  · have hlarge : (2 : ℚ) ^ 60 ≤ (digitsValue used : ℚ) * 10 ^ kept.length + digitsValue kept := by
      have hnat := h.large_kept hnone
      rw [digitsValue_append] at hnat
      exact_mod_cast hnat
    calc
      (2 : ℚ) ^ 60 * (digitsValue unused / 10 ^ unused.length / 10 ^ kept.length)
        ≤ 2 ^ 60 * (1 / 10 ^ kept.length) := by gcongr
      _ = 2 ^ 60 / 10 ^ kept.length := by rw [mul_one_div]
      _ ≤ ((digitsValue used : ℚ) * 10 ^ kept.length + digitsValue kept) / 10 ^ kept.length := by
        gcongr
      _ = digitsValue used + digitsValue kept / 10 ^ kept.length := by
        field_simp

/-- Where digits before the point are left out, the significand is close to the numeral, because all
that follows weighs less than the last digit before them. -/
theorem near_of_left_out (h : n.GatheredFrom used leftOut kept unused) (hne : leftOut ≠ [])
    (hwhole : ∀ c ∈ n.whole, c.isDigit) (hfraction : ∀ c ∈ n.fraction, c.isDigit) :
    Near (1 / 2 ^ 60) 0 ((digitsValue used * 10 ^ kept.length + digitsValue kept) *
      (10 ^ leftOut.length / 10 ^ kept.length)) n.mantissa := by
  have hrest : (digitsValue leftOut : ℚ) + 1 ≤ 10 ^ leftOut.length := by
    have hlt : digitsValue leftOut < 10 ^ leftOut.length :=
      digitsValue_lt fun c hc => hwhole c (h.whole ▸ List.mem_append_right used hc)
    exact_mod_cast hlt
  have hscaled : ((digitsValue used : ℚ) * 10 ^ kept.length + digitsValue kept) *
      (10 ^ leftOut.length / 10 ^ kept.length) = digitsValue used * 10 ^ leftOut.length +
        digitsValue kept / 10 ^ kept.length * 10 ^ leftOut.length := by
    field_simp
  have hexact : n.mantissa = digitsValue used * 10 ^ leftOut.length +
      (digitsValue leftOut + digitsValue n.fraction / 10 ^ n.fraction.length) := by
    rw [mantissa, h.whole, digitsValue_append]
    push_cast
    ring
  have hlarge : (2 : ℚ) ^ 60 ≤ digitsValue used := by exact_mod_cast h.large_used hne
  have hbase : (2 : ℚ) ^ 60 * 10 ^ leftOut.length ≤ digitsValue used * 10 ^ leftOut.length :=
    mul_le_mul_of_nonneg_right hlarge (by positivity)
  rw [hscaled, hexact]
  refine near_of_common_base hbase (by positivity) ?_ (by positivity) ?_
  · exact mul_le_of_le_one_left (by positivity) (h.kept_lt_one hfraction).le
  · have hbehind := fraction_lt_one hfraction
    linarith

end GatheredFrom

/-- The scaled significand is close to the digits of the numeral. -/
theorem significand_near (hwhole : ∀ c ∈ n.whole, c.isDigit)
    (hfraction : ∀ c ∈ n.fraction, c.isDigit) :
    Near (1 / 2 ^ 60) 0 (n.significand.coefficient * 10 ^ n.significand.exponent) n.mantissa := by
  obtain ⟨used, leftOut, kept, unused, h⟩ := exists_gatheredFrom hwhole hfraction
  have hten : (10 : ℚ) ≠ 0 := by norm_num
  rw [h.significand]
  dsimp only
  rw [zpow_sub₀ hten, zpow_natCast, zpow_natCast, digitsValue_append]
  push_cast
  by_cases hne : leftOut = []
  · subst hne
    exact h.near_of_all_used hfraction
  · exact h.near_of_left_out hne hwhole hfraction

/-- A significand has 64 bits. -/
theorem significand_coefficient_lt (n : Numeral) : n.significand.coefficient < 2 ^ 64 := by
  have hfirst := Digits.gather_le n.whole (Nat.zero_le greatestSignificand)
  have hsecond : n.significand.coefficient ≤ greatestSignificand :=
    Digits.gather_le n.fraction hfirst
  rw [greatestSignificand] at hsecond
  omega

/-- The exponent of a significand is at most the number of digits. -/
theorem natAbs_significand_exponent_le (hwhole : ∀ c ∈ n.whole, c.isDigit)
    (hfraction : ∀ c ∈ n.fraction, c.isDigit) :
    n.significand.exponent.natAbs ≤ n.whole.length + n.fraction.length := by
  obtain ⟨used, leftOut, kept, unused, h⟩ := exists_gatheredFrom hwhole hfraction
  rw [h.significand, h.whole, h.fraction, List.length_append, List.length_append]
  dsimp only
  omega

variable {m : Nat} {a : Binary64}

/-- Exponents may be kept within 32 bits, since none beyond makes a difference. -/
theorem scale?_saturate (h : Binary64.OfSignificand m a) (exponent : Int) :
    a.scale? (saturate exponent) = a.scale? exponent := by
  have hgreatest : Binary64.greatestPower = 308 := rfl
  have hexponent : greatestExponent = 2147483647 := rfl
  by_cases hlarge : greatestExponent < exponent
  · have hsaturated : saturate exponent = greatestExponent := by
      rw [saturate]
      omega
    rw [hsaturated, h.scale?_of_large (by omega), h.scale?_of_large (by omega)]
  by_cases hsmall : exponent < -greatestExponent - 1
  · have hsaturated : saturate exponent = -greatestExponent - 1 := by
      rw [saturate]
      omega
    rw [hsaturated, h.scale?_of_small (by omega), h.scale?_of_small (by omega)]
  · have hkept : saturate exponent = exponent := by
      rw [saturate]
      omega
    rw [hkept]

/-- An explicit exponent that is not gathered in full is beyond 32 bits. -/
theorem greatestExponent_lt_digitsValue {digits : List Char}
    (h : ∀ shift, Digits.gather greatestExponent 0 digits ≠ (shift, [])) :
    greatestExponent < digitsValue digits := by
  by_contra hle
  exact h _ ((Digits.gather_eq_iff (Nat.zero_le _)).mpr ⟨rfl, Nat.not_lt.mp hle⟩)

/-- The magnitude is the scaled significand, also where the explicit exponent is beyond 32 bits,
unless there are as many digits as that. -/
theorem magnitude?_eq (hwhole : ∀ c ∈ n.whole, c.isDigit) (hfraction : ∀ c ∈ n.fraction, c.isDigit)
    (hlength : n.exponent ≠ none → n.whole.length + n.fraction.length ≤ 2 ^ 30) :
    ∃ a, Binary64.ofNat? n.significand.coefficient = some a ∧
      Binary64.OfSignificand n.significand.coefficient a ∧
      n.magnitude? = a.scale? (n.significand.exponent + exponentValue n.exponent) := by
  obtain ⟨a, ha, hsignificand⟩ := Binary64.exists_ofSignificand n.significand_coefficient_lt
  have hexponent := natAbs_significand_exponent_le hwhole hfraction
  refine ⟨a, ha, hsignificand, ?_⟩
  unfold magnitude?
  simp only [Option.bind_eq_bind, ha, Option.bind_some]
  cases hexplicit : n.exponent with
  | none => rw [exponentValue, add_zero]
  | some e =>
    have hdigits := hlength (hexplicit ▸ Option.some_ne_none e)
    dsimp only
    split
    · next shift hshift =>
      have hvalue : shift = digitsValue e.digits :=
        ((Digits.gather_eq_iff (Nat.zero_le _)).mp hshift).1
      rw [scale?_saturate hsignificand, exponentValue, hvalue]
      split
      · rw [Int.sub_eq_add_neg]
      · rfl
    · next hpassed =>
      have hbeyond : greatestExponent < digitsValue e.digits :=
        greatestExponent_lt_digitsValue hpassed
      have hgreatest : Binary64.greatestPower = 308 := rfl
      rw [greatestExponent] at hbeyond
      rw [exponentValue]
      by_cases hnegative : e.negative
      · rw [if_pos (.inl hnegative), if_pos hnegative, hsignificand.scale?_of_small (by omega)]
      · rw [if_neg hnegative, hsignificand.scale?_of_large (by omega)]
        simp only [hnegative, Bool.false_eq_true, false_or]

/-- The digits of a numeral do not write less than nothing. -/
theorem mantissa_nonneg (n : Numeral) : 0 ≤ n.mantissa := by
  unfold mantissa
  positivity

/-- A magnitude is not negative. -/
theorem magnitude_nonneg (n : Numeral) : 0 ≤ n.magnitude :=
  mul_nonneg n.mantissa_nonneg (zpow_pos (by norm_num) _).le

/-- The magnitude of a numeral is rounded to a double near it, unless it is too large. -/
theorem rounded_magnitude? (hwhole : ∀ c ∈ n.whole, c.isDigit)
    (hfraction : ∀ c ∈ n.fraction, c.isDigit)
    (hlength : n.exponent ≠ none → n.whole.length + n.fraction.length ≤ 2 ^ 30) :
    Binary64.Rounded n.magnitude? false (7 * Binary64.roundoff) (3 / 4)
      (n.magnitude * Binary64.one) := by
  obtain ⟨a, -, ha, heq⟩ := magnitude?_eq hwhole hfraction hlength
  have hpower : (0 : ℚ) < 10 ^ exponentValue n.exponent := zpow_pos (by norm_num) _
  have hone := Binary64.one_pos
  have hround := Binary64.roundoff_pos
  have hexact : 0 ≤ n.magnitude * Binary64.one := mul_nonneg n.magnitude_nonneg hone.le
  have hscaled : Near (1 / 2 ^ 60) 0 (n.significand.coefficient *
      10 ^ (n.significand.exponent + exponentValue n.exponent) * Binary64.one)
      (n.magnitude * Binary64.one) := by
    have hten : (10 : ℚ) ≠ 0 := by norm_num
    have hmul := ((significand_near hwhole hfraction).mul hpower.le).mul hone.le
    rwa [zero_mul, zero_mul, mul_assoc (n.significand.coefficient : ℚ), ← zpow_add₀ hten] at hmul
  have hrounded := ha.rounded_scale? (n.significand.exponent + exponentValue n.exponent)
  rw [heq]
  refine (hrounded.trans hscaled (by linarith)).mono ?_ (by linarith) hexact
  norm_num [Binary64.roundoff]

end LoginService.Json.Numeral
