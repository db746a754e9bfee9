import LoginService.Proofs.Json.Number
import LoginService.Proofs.Json.Significand

/-!
# How accurate doubles are read

A numeral that is not read as an integer of 64 bits is read as a double with its sign, which is off
by at most a relative error of 2^-50 and an absolute one of 2^-1074. A numeral is out of range only
if its magnitude is hardly below 2^1024, or larger.
-/

namespace LoginService

/-- The number that a double is. -/
def Binary64.toRat (a : Binary64) : ℚ :=
  if a.negative then -(a.units / 2 ^ 1074) else a.units / 2 ^ 1074

namespace Json.Numeral

/-- A numeral with a fraction or an exponent, an integer beyond 64 bits, or minus zero. -/
def IsDouble (n : Numeral) : Prop :=
  n.fraction ≠ [] ∨ n.exponent ≠ none ∨ n.value < -2 ^ 63 ∨ 2 ^ 64 - 1 < n.value ∨
    n.negative ∧ n.value = 0

/-- The magnitude of an integer is the number that its digits write. -/
theorem magnitude_of_integer (negative : Bool) (whole : List Char) :
    magnitude ⟨negative, whole, [], none⟩ = digitsValue whole := by
  simp [magnitude, mantissa, exponentValue, digitsValue]

/-- An integer is read as a double if and only if its magnitude is too large for its sign, or it is
minus zero. -/
theorem isDouble_of_integer_iff {negative : Bool} {whole : List Char} :
    IsDouble ⟨negative, whole, [], none⟩ ↔
      if negative then digitsValue whole = 0 ∨ greatestNegated < digitsValue whole
      else greatestSignificand < digitsValue whole := by
  have hmagnitude := magnitude_of_integer negative whole
  simp only [IsDouble, ne_eq, not_true_eq_false, false_or, value, hmagnitude]
  generalize digitsValue whole = d
  have hd : (0 : ℚ) ≤ d := Nat.cast_nonneg d
  cases negative with
  | false =>
    have hcast : (2 : ℚ) ^ 64 - 1 < d ↔ greatestSignificand < d := by
      have hpower : ((greatestSignificand : Nat) : ℚ) = 2 ^ 64 - 1 := by
        norm_num [greatestSignificand]
      rw [← hpower, Nat.cast_lt]
    have hlow : ¬(d : ℚ) < -2 ^ 63 := by linarith
    simp [hcast, hlow]
  | true =>
    have hcast : -(d : ℚ) < -2 ^ 63 ↔ greatestNegated < d := by
      have hpower : ((greatestNegated : Nat) : ℚ) = 2 ^ 63 := by
        norm_num [greatestNegated]
      rw [neg_lt_neg_iff, ← hpower, Nat.cast_lt]
    have hhigh : ¬(2 : ℚ) ^ 64 - 1 < -d := by linarith
    simp [hcast, hhigh, or_comm]

/-- The numerals that are read as doubles are those that are not read as integers. -/
theorem integer?_eq_none_iff {n : Numeral} : n.integer? = none ↔ n.IsDouble := by
  obtain ⟨negative, whole, fraction, exponent⟩ := n
  cases fraction with
  | cons => exact iff_of_true rfl (.inl (List.cons_ne_nil _ _))
  | nil =>
    cases exponent with
    | some e => exact iff_of_true rfl (.inr (.inl (Option.some_ne_none e)))
    | none =>
      rw [isDouble_of_integer_iff]
      by_cases hfits : digitsValue whole ≤ greatestSignificand
      · have hgather : Digits.gather greatestSignificand 0 whole = (digitsValue whole, []) :=
          (Digits.gather_eq_iff (Nat.zero_le _)).mpr ⟨rfl, hfits⟩
        rw [integer?_of_gather hgather]
        cases negative with
        | false => simp [hfits]
        | true => simp [or_iff_not_imp_left]
      · have hpassed : integer? ⟨negative, whole, [], none⟩ = none := by
          unfold integer?
          split
          · next hgather =>
            exact absurd ((Digits.gather_eq_iff (Nat.zero_le _)).mp hgather) (by
              rintro ⟨rfl, hle⟩
              exact hfits hle)
          · rfl
        have hnegated : greatestNegated < digitsValue whole := by
          rw [greatestSignificand] at hfits
          rw [greatestNegated]
          omega
        refine iff_of_true hpassed ?_
        cases negative with
        | false => exact Nat.not_le.mp hfits
        | true => exact .inr hnegated

/-- The absolute value of a numeral is its magnitude. -/
theorem abs_value (n : Numeral) : |n.value| = n.magnitude := by
  unfold value
  split
  · rw [abs_neg, abs_of_nonneg n.magnitude_nonneg]
  · exact abs_of_nonneg n.magnitude_nonneg

/-- A magnitude that is too large is hardly below 2^1024. -/
theorem le_of_atMost_limit {x : ℚ}
    (h : AtMost (7 * Binary64.roundoff) (3 / 4) Binary64.limit (x * Binary64.one)) :
    (1 - 1 / 2 ^ 50) * 2 ^ 1024 ≤ x := by
  have hlimit : (Binary64.limit : ℚ) = 2 ^ 1024 * Binary64.one :=
    Binary64.cast_unitsOfPower_eq 1024
  have hone : (2 : ℚ) ^ 52 ≤ Binary64.one := Binary64.le_unitsOfPower 0 (by decide)
  have hpower : (2 : ℚ) ≤ 2 ^ 1024 := le_self_pow₀ (by norm_num) (by decide)
  rw [AtMost, hlimit, Binary64.roundoff] at h
  generalize (2 : ℚ) ^ 1024 = power at *
  generalize (Binary64.one : ℚ) = one at *
  have hpositive : 0 < one := by linarith
  by_contra! hbelow
  have hscaled := mul_lt_mul_of_pos_right hbelow hpositive
  have hlarge : 2 * one ≤ power * one := mul_le_mul_of_nonneg_right hpower hpositive.le
  norm_num at h hscaled hone
  linarith

/-- A double with the sign of a numeral is as close to its value as their magnitudes are. -/
theorem abs_toRat_sub_value_le {n : Numeral} {a : Binary64} (hsign : a.negative = n.negative)
    (h : Near (7 * Binary64.roundoff) (3 / 4) a.units (n.magnitude * Binary64.one)) :
    |a.toRat - n.value| ≤ 1 / 2 ^ 50 * |n.value| + 1 / 2 ^ 1074 := by
  have hdistance : |a.toRat - n.value| = |a.units / 2 ^ 1074 - n.magnitude| := by
    rw [Binary64.toRat, value, hsign]
    split
    · rw [neg_sub_neg, abs_sub_comm]
    · rfl
  have hnear := h.div Binary64.one_pos
  rw [mul_div_cancel_right₀ _ Binary64.one_pos.ne', Binary64.cast_one] at hnear
  rw [hdistance, abs_value]
  have hunit : (0 : ℚ) < 2 ^ 1074 := by positivity
  refine hnear.mono ?_ ?_ n.magnitude_nonneg
  · norm_num [Binary64.roundoff]
  · exact div_le_div_of_nonneg_right (by norm_num) hunit.le

/-- A numeral that is not an integer of 64 bits is read as a double with its sign and near its
value, or its value is too large. -/
theorem number?_of_isDouble {n : Numeral} (hdouble : n.IsDouble)
    (hwhole : ∀ c ∈ n.whole, c.isDigit) (hfraction : ∀ c ∈ n.fraction, c.isDigit)
    (hlength : n.whole.length + n.fraction.length ≤ 2 ^ 30) :
    (∃ a : Binary64, n.number? = some (.double a) ∧ a.negative = n.negative ∧
        |a.toRat - n.value| ≤ 1 / 2 ^ 50 * |n.value| + 1 / 2 ^ 1074) ∨
      n.number? = none ∧ (1 - 1 / 2 ^ 50) * 2 ^ 1024 ≤ |n.value| := by
  have hnumber : n.number? = n.magnitude?.map fun a => .double (a.withSign n.negative) := by
    rw [number?, integer?_eq_none_iff.mpr hdouble]
  rw [hnumber]
  cases rounded_magnitude? hwhole hfraction fun _ => hlength with
  | @near b hresult _ hnear =>
    rw [hresult, Option.map_some]
    exact .inl ⟨b.withSign n.negative, rfl, rfl, abs_toRat_sub_value_le rfl hnear⟩
  | tooLarge hresult hlarge =>
    rw [hresult, abs_value]
    exact .inr ⟨rfl, le_of_atMost_limit hlarge⟩

end Json.Numeral

end LoginService
