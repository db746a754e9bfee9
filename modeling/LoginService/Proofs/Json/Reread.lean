import LoginService.Proofs.Binary64.Greatest
import LoginService.Proofs.Json.Accuracy
import LoginService.Proofs.Json.DecimalText
import LoginService.Proofs.Json.ShortDecimal

/-!
# Reading a number from its text

The text of a double is a numeral that is rounded to it, but the reader does not round correctly. So
a double is not always read back from its text. What is read is a double next to it, for the errors
of the text and of the reader add up to a few units in the last place, and no text of a double is
out of range, since the text of the greatest one is not.
-/

namespace LoginService

open Json Json.Numeral

namespace Binary64

/-- A shortest decimal has at most seventeen digits. -/
theorem length_digits_shortest_le {units : Nat} (hunits : units ≠ 0) (hprecise : Precise units) :
    (shortest units).digits.length ≤ 17 := by
  obtain ⟨j, b, hj, hb, heq, -⟩ := exists_shortest_eq hunits hprecise
  have hdigits := length_digits_gridPoint_le hunits hj hb
  rw [heq]
  omega

/-- The powers of two between the smallest and the greatest double are below 10^399. -/
theorem two_pow_le_ten_pow {k : Nat} (hk : k ≤ 1140) : (2 : ℚ) ^ k ≤ 10 ^ (399 : Int) := by
  have hpower : 2 ^ k ≤ 10 ^ 399 := pow_le_pow_ten (show k ≤ 228 * 5 by omega) (by decide)
  exact_mod_cast hpower

/-- The first digit of a shortest decimal has a power of ten below 10^400. -/
theorem scientificExponent_shortest_lt {units : Nat} (hunits : units ≠ 0)
    (hprecise : Precise units) (hfinite : units < limit) :
    (shortest units).scientificExponent < 400 := by
  have hshortest := isShortest_shortest hunits hprecise
  have hlimit : Precise limit := precise_unitsOfPower 1024
  by_contra! hge
  refine absurd (hlimit.isNearest.mono hshortest.rounded ?_) (Nat.not_le.mpr hfinite)
  have hreached : (10 : ℚ) ^ (399 : Int) ≤ (shortest units).toRat :=
    (Decimal.le_scientificExponent_iff hshortest.ne_zero).mp (by omega)
  have hpower : (2 : ℚ) ^ 1024 ≤ 10 ^ (399 : Int) := two_pow_le_ten_pow (by decide)
  rw [limit, cast_unitsOfPower_eq]
  exact mul_le_mul_of_nonneg_right (hpower.trans hreached) one_pos.le

/-- The first digit of a shortest decimal has a power of ten above 10^-400. -/
theorem lt_scientificExponent_shortest {units : Nat} (hunits : units ≠ 0)
    (hprecise : Precise units) : -400 < (shortest units).scientificExponent := by
  have hshortest := isShortest_shortest hunits hprecise
  have hpositive : 0 ≤ (shortest units).toRat :=
    mul_nonneg (Nat.cast_nonneg _) (zpow_pos (by norm_num) _).le
  have hhalf := hshortest.rounded.half_le (mul_nonneg hpositive one_pos.le) hunits
  have hone : 2 * (one : ℚ) ≤ 10 ^ (399 : Int) := by
    have htwo : (unitsOfPower 1 : ℚ) = 2 * one := by
      rw [cast_unitsOfPower_eq, pow_one]
    rw [← htwo, cast_unitsOfPower]
    exact two_pow_le_ten_pow (by decide)
  have hreached : (10 : ℚ) ^ (-399 : Int) ≤ (shortest units).toRat := by
    by_contra! hbelow
    have hproduct : (shortest units).toRat * (2 * one) < 10 ^ (-399 : Int) * 10 ^ (399 : Int) :=
      mul_lt_mul hbelow hone (mul_pos two_pos one_pos) (zpow_pos (by norm_num) _).le
    rw [← zpow_add₀ (by norm_num), neg_add_cancel, zpow_zero] at hproduct
    linarith
  have hexponent := (Decimal.le_scientificExponent_iff hshortest.ne_zero).mpr hreached
  omega

/-- The text of a shortest decimal has at most thirty characters. -/
theorem length_text_shortest_le {units : Nat} (hprecise : Precise units) (hfinite : units < limit) :
    (shortest units).text.length ≤ 30 := by
  by_cases hunits : units = 0
  · rw [hunits]
    decide
  have hdigits := length_digits_shortest_le hunits hprecise
  have hlarge := scientificExponent_shortest_lt hunits hprecise hfinite
  have hsmall := lt_scientificExponent_shortest hunits hprecise
  have hlayout := (shortest units).layout_text
  generalize (shortest units).digits = digits at *
  generalize (shortest units).scientificExponent = exponent at *
  generalize (shortest units).text = text at *
  have hpointed : (Decimal.pointed digits).length ≤ digits.length + 1 := by
    unfold Decimal.pointed
    split <;> simp
  have hpower : ∀ n : Nat, n < 400 → (Nat.toDigits 10 n).length ≤ 3 := fun n hn =>
    (Nat.length_toDigits_le_iff (by decide) (by decide)).mpr (by omega)
  cases hlayout with
  | belowOne h =>
    simp only [List.length_cons, List.length_append, List.length_replicate]
    omega
  | whole h =>
    simp only [List.length_cons, List.length_append, List.length_replicate, List.length_nil]
    omega
  | mixed h =>
    rw [h, List.length_append] at hdigits
    simp only [List.length_append, List.length_cons]
    omega
  | @large exponent h =>
    have := hpower exponent (by omega)
    simp only [List.length_append, List.length_cons]
    omega
  | @small exponent h =>
    have := hpower exponent (by omega)
    simp only [List.length_append, List.length_cons]
    omega

end Binary64

namespace Json.Numeral

/-- A large number in scientific notation has the digits of its decimal. -/
theorem Renders.whole_append_fraction {n : Numeral} {first : Char} {rest text : List Char}
    {exponent : Int} (h : n.Renders (first :: rest) exponent text) (hfirst : first ≠ '0')
    (hdigits : ∀ c ∈ first :: rest, c.isDigit) (hlarge : 16 ≤ exponent)
    (hlayout : Decimal.Layout (first :: rest) exponent text) :
    n.whole ++ n.fraction = first :: rest := by
  cases hlayout with
  | belowOne | whole | mixed | small => omega
  | @large exponent =>
    have hpower : DigitRun (Nat.toDigits 10 exponent) :=
      ⟨Nat.toDigits_ne_nil, fun c => Digits.isDigit_of_mem_toDigits⟩
    have hrange : 15 < (exponent : Int) := by omega
    have hrenders := Renders.of_scientific hfirst hdigits (.plus (.inl rfl) hpower)
      (by simp [exponentValue, digitsValue]) (.inr hrange)
    rw [h.spelled.unique hrenders.spelled]
    rfl

/-- The place of the last of a few digits of a number that is hardly below 2^1024. -/
theorem exponent_bounds_of_large {d : Decimal} (hcoefficient : d.coefficient < 10 ^ 17)
    (hlow : (1 - 1 / 2 ^ 50) * 2 ^ 1024 ≤ d.toRat)
    (hhigh : d.toRat ≤ Binary64.greatestDecimal.toRat) : 292 ≤ d.exponent ∧ d.exponent ≤ 308 := by
  have hten : (10 : ℚ) ≠ 0 := by norm_num
  have hone : (1 : ℚ) ≤ 10 := by norm_num
  have habove : (10 : ℚ) ^ (308 : Int) < d.toRat := by
    have hnat := Binary64.greatestPower_bounds.2
    rw [Binary64.greatestPower] at hnat
    have hpower : 3 * (10 : ℚ) ^ (308 : Int) ≤ 2 * 2 ^ 1024 := by exact_mod_cast hnat
    have hpositive : (0 : ℚ) < 10 ^ (308 : Int) := zpow_pos (by norm_num) _
    generalize (10 : ℚ) ^ (308 : Int) = power at *
    generalize (2 : ℚ) ^ 1024 = bound at *
    norm_num at hlow
    linarith
  have hfew : (d.coefficient : ℚ) < 10 ^ (17 : Int) := by exact_mod_cast hcoefficient
  constructor
  · by_contra! hsmall
    have hplace : (10 : ℚ) ^ d.exponent ≤ 10 ^ (291 : Int) := zpow_le_zpow_right₀ hone (by omega)
    have hbelow : d.toRat < 10 ^ (17 : Int) * 10 ^ (291 : Int) :=
      mul_lt_mul hfew hplace (zpow_pos (by norm_num) _) (zpow_pos (by norm_num) _).le
    rw [← zpow_add₀ hten] at hbelow
    exact lt_irrefl _ (habove.trans hbelow)
  · by_contra! hlarge
    have hplace : (10 : ℚ) ^ (309 : Int) ≤ 10 ^ d.exponent := zpow_le_zpow_right₀ hone (by omega)
    have hcoefficient : (1 : ℚ) ≤ d.coefficient := by
      have hne : d.coefficient ≠ 0 := by
        intro hzero
        rw [Decimal.toRat_eq_zero_iff.mpr hzero] at habove
        exact absurd habove (not_lt.mpr (zpow_pos (by norm_num) _).le)
      exact_mod_cast Nat.one_le_iff_ne_zero.mpr hne
    have hvalue : (10 : ℚ) ^ (309 : Int) ≤ d.toRat :=
      hplace.trans (le_mul_of_one_le_left (zpow_pos (by norm_num) _).le hcoefficient)
    have hgreatest : Binary64.greatestDecimal.toRat < 10 ^ (17 : Int) * 10 ^ (292 : Int) :=
      mul_lt_mul_of_pos_right (by norm_num [Binary64.greatestDecimal]) (zpow_pos (by norm_num) _)
    rw [← zpow_add₀ hten] at hgreatest
    exact lt_irrefl _ (hgreatest.trans_le (hvalue.trans hhigh))

/-- A numeral of up to seventeen digits that does not exceed the greatest decimal is not out of
range. -/
theorem magnitude?_ne_none {n : Numeral} (hwhole : ∀ c ∈ n.whole, c.isDigit)
    (hfraction : ∀ c ∈ n.fraction, c.isDigit)
    (hlength : n.whole.length + n.fraction.length ≤ 17)
    (hlow : (1 - 1 / 2 ^ 50) * 2 ^ 1024 ≤ n.magnitude)
    (hhigh : n.magnitude ≤ Binary64.greatestDecimal.toRat) : n.magnitude? ≠ none := by
  have hdigits : n.decimal.coefficient < 10 ^ 17 := by
    have hall : ∀ c ∈ n.whole ++ n.fraction, c.isDigit :=
      List.forall_mem_append.mpr ⟨hwhole, hfraction⟩
    refine (digitsValue_lt hall).trans_le (Nat.pow_le_pow_right (by decide) ?_)
    rwa [List.length_append]
  have hsignificand := significand_eq (n := n) (by
    rw [greatestSignificand]
    exact Nat.le_trans hdigits.le (by decide))
  obtain ⟨a, ha, -, hmagnitude⟩ := magnitude?_eq hwhole hfraction fun _ => by omega
  rw [← toRat_decimal] at hlow hhigh
  obtain ⟨hleast, hmost⟩ := exponent_bounds_of_large hdigits hlow hhigh
  have hexponent : n.significand.exponent + exponentValue n.exponent = n.decimal.exponent := by
    rw [hsignificand, decimal]
    dsimp only
    omega
  have hscale := Binary64.isSome_scale?_of_le hleast hmost hhigh
  rw [hsignificand] at ha
  rw [hmagnitude, hexponent]
  have hread : Binary64.ofNat? n.decimal.coefficient = some a := ha
  rw [hread, Option.bind_some] at hscale
  exact Option.isSome_iff_ne_none.mp hscale

end Json.Numeral

/-- What is read near a number is near what that number is rounded to. -/
theorem Near.of_rounded {x : ℚ} {units found : Nat}
    (hrounded : Near Binary64.roundoff (1 / 2) units x)
    (hfound : Near (7 * Binary64.roundoff) (3 / 4) found x) :
    Near (16 * Binary64.roundoff) 2 found units := by
  have htriangle := abs_sub_le (found : ℚ) x units
  have hlow := hrounded.ge
  rw [Near, abs_sub_comm] at hrounded
  rw [Near] at *
  norm_num [Binary64.roundoff] at *
  linarith

namespace Json.Numeral

variable {n : Numeral} {units : Nat}

/-- A numeral that is the text of a magnitude has the value of its shortest decimal. -/
theorem SpelledBy.magnitude_eq (h : n.SpelledBy (Binary64.shortest units).text)
    (hprecise : Binary64.Precise units) : n.magnitude = (Binary64.shortest units).toRat := by
  by_cases hunits : units = 0
  · subst hunits
    have hrun : DigitRun ['0'] := ⟨by simp, List.forall_mem_singleton.mpr rfl⟩
    have hzero : SpelledBy ⟨false, ['0'], ['0'], none⟩ ['0', '.', '0'] :=
      .mk .zero (.present hrun) .absent
    rw [h.unique hzero, ← toRat_decimal, Decimal.toRat_eq_zero_iff.mpr rfl,
      Decimal.toRat_eq_zero_iff.mpr rfl]
  · have hshortest := Binary64.isShortest_shortest hunits hprecise
    obtain ⟨m, hrenders, hvalue⟩ := Decimal.exists_renders hshortest.ne_zero
    rw [h.unique hrenders.spelled, ← toRat_decimal, hvalue]

/-- Where it is large, it has the digits of the shortest decimal. -/
theorem SpelledBy.length_digits_le_of_large (h : n.SpelledBy (Binary64.shortest units).text)
    (hunits : units ≠ 0) (hprecise : Binary64.Precise units) (hlarge : 10 ^ 16 ≤ n.magnitude) :
    n.whole.length + n.fraction.length ≤ 17 := by
  have hshortest := Binary64.isShortest_shortest hunits hprecise
  have hexponent : 16 ≤ (Binary64.shortest units).scientificExponent := by
    rw [Decimal.le_scientificExponent_iff hshortest.ne_zero, ← h.magnitude_eq hprecise]
    exact hlarge
  obtain ⟨m, hrenders, -⟩ := Decimal.exists_renders hshortest.ne_zero
  obtain ⟨first, rest, hcons, hfirst, hdigits⟩ := Decimal.digits_eq_cons hshortest.ne_zero
  have hlayout := (Binary64.shortest units).layout_text
  have hcount := Binary64.length_digits_shortest_le hunits hprecise
  rw [← h.unique hrenders.spelled, hcons] at hrenders
  rw [hcons] at hlayout hcount
  rw [← List.length_append, hrenders.whole_append_fraction hfirst hdigits hexponent hlayout]
  exact hcount

/-- A numeral that is the text of a magnitude is read near it, and zero is read as zero. -/
theorem SpelledBy.exists_magnitude? (h : n.SpelledBy (Binary64.shortest units).text)
    (hrounded : Binary64.IsNearest (n.magnitude * Binary64.one) units)
    (hfinite : units < Binary64.limit) :
    ∃ b : Binary64, n.magnitude? = some b ∧
      Near (16 * Binary64.roundoff) 2 b.units units ∧ (units = 0 → b.units = 0) := by
  have hprecise := hrounded.precise
  obtain ⟨hwhole, hfraction⟩ := h.isDigit
  have hlength := h.length_digits_le
  have htext := Binary64.length_text_shortest_le hprecise hfinite
  have hexact := mul_nonneg n.magnitude_nonneg Binary64.one_pos.le
  have hzero : (Binary64.shortest 0).toRat = 0 := Decimal.toRat_eq_zero_iff.mpr rfl
  cases rounded_magnitude? hwhole hfraction fun _ => by omega with
  | @near b hresult _ hnear =>
    refine ⟨b, hresult, .of_rounded (hrounded.near_half hexact) hnear, ?_⟩
    rintro rfl
    rw [h.magnitude_eq hprecise, hzero, zero_mul] at hnear
    exact Binary64.units_eq_zero_of_near hnear (by norm_num)
  | tooLarge hresult hlarge =>
    -- Out of range is only what is hardly below 2^1024. There the numeral has few digits, and its
    -- value is at most that of the greatest double.
    have hlow := le_of_atMost_limit hlarge
    have hsixteen : 10 ^ 16 ≤ n.magnitude := by
      have hpower : (2 : ℚ) ^ 64 ≤ 2 ^ 1024 := pow_le_pow_right₀ (by norm_num) (by decide)
      have hscaled : (1 - 1 / 2 ^ 50) * (2 : ℚ) ^ 64 ≤ (1 - 1 / 2 ^ 50) * 2 ^ 1024 :=
        mul_le_mul_of_nonneg_left hpower (by norm_num)
      exact le_trans (by norm_num) (hscaled.trans hlow)
    have hunits : units ≠ 0 := by
      rintro rfl
      rw [h.magnitude_eq hprecise, hzero] at hsixteen
      norm_num at hsixteen
    have hdigits := h.length_digits_le_of_large hunits hprecise hsixteen
    have hhigh := Binary64.toRat_shortest_le hunits hprecise hfinite
    rw [← h.magnitude_eq hprecise] at hhigh
    exact absurd hresult (magnitude?_ne_none hwhole hfraction hdigits hlow hhigh)

/-- A sign in front makes a numeral negative or leaves it as it is. -/
theorem SpelledBy.withSign {text : List Char} (h : n.SpelledBy text) (hsign : n.negative = false)
    (negative : Bool) :
    SpelledBy { n with negative } (if negative then '-' :: text else text) := by
  cases negative with
  | true => exact h.negated hsign
  | false =>
    obtain ⟨sign, whole, fraction, exponent⟩ := n
    obtain rfl : sign = false := hsign
    exact h

end Json.Numeral

namespace Binary64

/-- The absolute value of a double is its magnitude. -/
theorem abs_toRat (a : Binary64) : |a.toRat| = a.units / 2 ^ 1074 := by
  have hpositive : (0 : ℚ) ≤ a.units / 2 ^ 1074 := by positivity
  rw [toRat]
  split
  · rw [abs_neg, abs_of_nonneg hpositive]
  · exact abs_of_nonneg hpositive

/-- Doubles of one sign are as close to each other as their magnitudes. -/
theorem abs_toRat_sub_toRat_le {a b : Binary64} (hsign : b.negative = a.negative)
    (h : Near (16 * roundoff) 2 b.units a.units) :
    |b.toRat - a.toRat| ≤ 1 / 2 ^ 49 * |a.toRat| + 1 / 2 ^ 1073 := by
  have hdistance : |b.toRat - a.toRat| = |(b.units : ℚ) / 2 ^ 1074 - a.units / 2 ^ 1074| := by
    rw [toRat, toRat, hsign]
    split
    · rw [neg_sub_neg, abs_sub_comm]
    · rfl
  have hunit : (0 : ℚ) < 2 ^ 1074 := by positivity
  have hdouble : (2 : ℚ) / 2 ^ 1074 = 1 / 2 ^ 1073 := by
    rw [pow_succ, div_mul_cancel_right₀ two_ne_zero, one_div]
  have hnear := h.div hunit
  rw [hdistance, abs_toRat, ← hdouble]
  refine hnear.mono ?_ le_rfl (div_nonneg (Nat.cast_nonneg _) hunit.le)
  norm_num [roundoff]

end Binary64

namespace Json

/-- What is read from the text of a number: an integer of 64 bits itself, and for a double one of
the same sign next to it. -/
inductive Number.Resembles : Number → Number → Prop where
  | integer (n : Int) : Resembles (.integer n) (.integer n)
  | double {a b : Binary64} (hsign : b.negative = a.negative)
      (hnear : |b.toRat - a.toRat| ≤ 1 / 2 ^ 49 * |a.toRat| + 1 / 2 ^ 1073)
      (hzero : a.units = 0 → b = a) : Resembles (.double a) (.double b)

/-- Some numeral is read as the number. -/
def Number.IsRead (n : Number) : Prop :=
  ∃ numeral : Numeral, numeral.number? = some n

/-- The text of a double is a numeral that is read as a double next to it. -/
theorem exists_resembles_double (a : Binary64) :
    ∃ (numeral : Numeral) (m : Number), numeral.SpelledBy a.text.toList ∧
      numeral.number? = some m ∧ (Number.double a).Resembles m := by
  obtain ⟨n, hspelled, hwrites⟩ := exists_writes_shortest (a := a.withSign false) rfl
  obtain ⟨b, hb, hnear, hzero⟩ := hspelled.exists_magnitude? hwrites.rounded a.finite
  have hmarked : n.fraction ≠ [] ∨ n.exponent ≠ none := by
    by_cases hplain : n.IsPlain
    · exact .inl hplain.2
    · refine .inr (hwrites.scientific.mpr ?_).1
      rw [hwrites.plain] at hplain
      omega
  have hdouble : IsDouble { n with negative := a.negative } := hmarked.imp_right .inl
  have hnumber : number? { n with negative := a.negative } =
      some (.double (b.withSign a.negative)) := by
    rw [number?, integer?_eq_none_iff.mpr hdouble]
    exact congrArg (Option.map _) hb
  refine ⟨_, _, ?_, hnumber, .double rfl ?_ fun hunits => ?_⟩
  · rw [Binary64.text, String.toList_ofList]
    exact hspelled.withSign hwrites.sign a.negative
  · exact Binary64.abs_toRat_sub_toRat_le rfl hnear
  · exact Binary64.eq_of_units_eq_zero rfl (hzero hunits) hunits

/-- An integer is read from a numeral exactly if it is one of 64 bits. -/
theorem Number.isRead_integer_iff {i : Int} :
    (Number.integer i).IsRead ↔ -greatestNegated ≤ i ∧ i ≤ greatestSignificand := by
  constructor
  · rintro ⟨numeral, hnumber⟩
    exact bounds_of_number? hnumber
  · rintro ⟨hlow, hhigh⟩
    exact ⟨_, number?_ofInteger hlow hhigh⟩

/-- The text of a number that is read is a numeral that is read as a number of the same kind next to
it. -/
theorem Number.IsRead.exists_resembles {n : Number} (h : n.IsRead) :
    ∃ (numeral : Numeral) (m : Number), numeral.SpelledBy n.text.toList ∧
      numeral.number? = some m ∧ n.Resembles m := by
  cases n with
  | integer i =>
    obtain ⟨hlow, hhigh⟩ := Number.isRead_integer_iff.mp h
    exact ⟨_, _, spelledBy_integerText i, number?_ofInteger hlow hhigh, .integer i⟩
  | double a => exact exists_resembles_double a

/-- The text of a number that is read is short. -/
theorem Number.IsRead.length_text_le {n : Number} (h : n.IsRead) : n.text.toList.length ≤ 31 := by
  cases n with
  | integer i =>
    obtain ⟨hlow, hhigh⟩ := Number.isRead_integer_iff.mp h
    exact (length_integerText_le hlow hhigh).trans (by decide)
  | double a =>
    have htext := Binary64.length_text_shortest_le a.precise a.finite
    rw [Number.text, Binary64.text, String.toList_ofList]
    split
    · rw [List.length_cons]
      omega
    · omega

end Json

end LoginService
