import LoginService.Proofs.Binary64.Exact
import LoginService.Proofs.Json.Accuracy
import LoginService.Proofs.Json.DecimalText

/-!
# Integer literals

A numeral without fraction and exponent is read as an integer exactly if it fits 64 bits and is not
minus zero, and then it is the text of that integer. Any other numeral of this kind is read as minus
zero or as a double so large that its text is in scientific notation.
-/

namespace LoginService.Json

namespace Numeral

variable {n : Numeral} {literal : List Char}

/-- Digits without a superfluous zero in front are the digits of the number that they write. -/
theorem WholeSpelledBy.toDigits_eq {digits : List Char} (h : WholeSpelledBy digits) :
    Nat.toDigits 10 (digitsValue digits) = digits := by
  cases h with
  | zero => rfl
  | @positive first digits hfirst hzero hdigits =>
    have hvalue : Nat.toDigits 10 (Digits.value first) = [first] := by
      rw [Nat.toDigits_of_lt_base (Digits.value_lt_ten hfirst), Digits.digitChar_value hfirst]
    have hpos : 0 < Digits.value first := by
      by_contra hnot
      have heq : Digits.value first = 0 := by omega
      rw [heq] at hvalue
      exact hzero (List.cons.inj hvalue).1.symm
    rw [digitsValue, Nat.ofDigitChars_cons, Nat.mul_zero, Nat.zero_add, ← Digits.value,
      Digits.toDigits_ofDigitChars hdigits hpos, hvalue, List.singleton_append]

/-- An integer literal that is not read as a double is the text of an integer of 64 bits. -/
theorem SpelledBy.exists_integer (h : n.SpelledBy literal) (hn : n.IsInteger)
    (hexact : ¬n.IsDouble) :
    ∃ i : Int, -2 ^ 63 ≤ i ∧ i ≤ 2 ^ 64 - 1 ∧ n = ofInteger i ∧
      literal = (integerText i).toList := by
  obtain ⟨hliteral, hwhole⟩ := h.eq_of_isInteger hn
  obtain ⟨negative, whole, fraction, exponent⟩ := n
  obtain ⟨rfl, rfl⟩ : fraction = [] ∧ exponent = none := hn
  rw [isDouble_of_integer_iff, greatestNegated, greatestSignificand] at hexact
  have hdigits : Nat.toDigits 10 (digitsValue whole) = whole := hwhole.toDigits_eq
  obtain ⟨i, hlow, hhigh, hi⟩ : ∃ i : Int, -2 ^ 63 ≤ i ∧ i ≤ 2 ^ 64 - 1 ∧
      (⟨negative, whole, [], none⟩ : Numeral) = ofInteger i := by
    cases negative with
    | false =>
      have hrange : digitsValue whole ≤ 18446744073709551615 := by simpa using hexact
      refine ⟨digitsValue whole, by omega, by omega, ?_⟩
      have hsign : decide ((digitsValue whole : Int) < 0) = false := by simp
      rw [ofInteger, hsign, Int.natAbs_natCast, hdigits]
    | true =>
      have hrange : digitsValue whole ≠ 0 ∧ digitsValue whole ≤ 9223372036854775808 := by
        simpa using hexact
      refine ⟨-digitsValue whole, by omega, by omega, ?_⟩
      have hsign : decide (-(digitsValue whole : Int) < 0) = true := by
        rw [decide_eq_true_eq]
        omega
      rw [ofInteger, hsign, Int.natAbs_neg, Int.natAbs_natCast, hdigits]
  refine ⟨i, hlow, hhigh, hi, ?_⟩
  -- Its text is spelled by the same sign and digits.
  obtain ⟨htext, -⟩ := (spelledBy_integerText i).eq_of_isInteger ⟨rfl, rfl⟩
  rw [hliteral, htext, ← hi]

/-- The text of a large double has a positive exponent. -/
theorem isInfix_text_of_large {a : Binary64} (h : 2 ^ 60 * Binary64.one < a.units) :
    ['e', '+'] <:+: a.text.toList := by
  have hunits : a.units ≠ 0 := by omega
  have hshortest := Binary64.isShortest_shortest hunits a.precise
  have hexponent : 16 ≤ (Binary64.shortest a.units).scientificExponent := by
    rw [Decimal.le_scientificExponent_iff hshortest.ne_zero]
    by_contra! hbelow
    -- A decimal below 10^16 is not rounded to anything above 2^60.
    have hvalue : (Binary64.shortest a.units).toRat * Binary64.one ≤
        (1 * 2 ^ 60 * Binary64.one : Nat) := by
      rw [Nat.cast_mul]
      refine mul_le_mul_of_nonneg_right ?_ Binary64.one_pos.le
      exact hbelow.le.trans (by norm_num)
    have hle := hshortest.rounded.mono (Binary64.precise_mul_one (by decide) 60).isNearest hvalue
    omega
  have hlayout := (Binary64.shortest a.units).layout_text
  have htext : ['e', '+'] <:+: (Binary64.shortest a.units).text := by
    generalize (Binary64.shortest a.units).scientificExponent = exponent at *
    generalize (Binary64.shortest a.units).text = text at *
    cases hlayout with
    | belowOne | whole | mixed | small => omega
    | @large exponent => exact ⟨Decimal.pointed (Binary64.shortest a.units).digits,
        Nat.toDigits 10 exponent, by simp⟩
  rw [Binary64.text, String.toList_ofList]
  split
  · exact htext.trans (List.suffix_cons '-' _).isInfix
  · exact htext

/-- The text of a double that is zero has a point. -/
theorem point_mem_text_of_zero {a : Binary64} (h : a.units = 0) : '.' ∈ a.text.toList := by
  have htext : (Binary64.shortest a.units).text = ['0', '.', '0'] := by
    rw [h]
    rfl
  rw [Binary64.text, String.toList_ofList, htext]
  cases a.negative <;> simp

/-- An integer literal that is read as a double is minus zero or at least 2^63. -/
theorem IsDouble.magnitude_cases (hdouble : n.IsDouble) (hn : n.IsInteger) :
    n.magnitude = 0 ∨ 2 ^ 63 ≤ n.magnitude := by
  obtain ⟨negative, whole, fraction, exponent⟩ := n
  obtain ⟨rfl, rfl⟩ : fraction = [] ∧ exponent = none := hn
  rw [isDouble_of_integer_iff, greatestNegated, greatestSignificand] at hdouble
  rw [magnitude_of_integer]
  have hcases : digitsValue whole = 0 ∨ 2 ^ 63 ≤ digitsValue whole := by
    split at hdouble <;> omega
  exact_mod_cast hcases

/-- What is near a large number of units is itself a large number of them. -/
theorem lt_of_near {number unit found : ℚ} (hunit : 1 ≤ unit) (hlarge : 2 ^ 63 ≤ number)
    (hnear : Near (7 * Binary64.roundoff) (3 / 4) found (number * unit)) :
    2 ^ 60 * unit < found := by
  have hfactor : (2 : ℚ) ^ 60 + 1 ≤ (1 - 7 * Binary64.roundoff) * 2 ^ 63 := by
    norm_num [Binary64.roundoff]
  have hpositive : 0 ≤ 1 - 7 * Binary64.roundoff := by norm_num [Binary64.roundoff]
  calc (2 : ℚ) ^ 60 * unit < (2 ^ 60 + 1) * unit - 3 / 4 := by linarith
    _ ≤ (1 - 7 * Binary64.roundoff) * 2 ^ 63 * unit - 3 / 4 := by gcongr
    _ ≤ (1 - 7 * Binary64.roundoff) * (number * unit) - 3 / 4 := by
      rw [mul_assoc]
      gcongr
    _ ≤ found := hnear.ge

/-- An integer literal that is read as a double has a text with a point or a positive exponent. -/
theorem exists_double_of_isInteger (hspelled : n.SpelledBy literal) (hn : n.IsInteger)
    (hdouble : n.IsDouble) {found : Number} (hnumber : n.number? = some found) :
    ∃ a : Binary64, found = .double a ∧
      ('.' ∈ a.text.toList ∨ ['e', '+'] <:+: a.text.toList) := by
  obtain ⟨-, hwhole⟩ := hspelled.eq_of_isInteger hn
  have hfraction : ∀ c ∈ n.fraction, c.isDigit := by simp [hn.1]
  rw [number?, integer?_eq_none_iff.mpr hdouble] at hnumber
  cases rounded_magnitude? hwhole.digitRun.2 hfraction fun h => absurd hn.2 h with
  | tooLarge hresult =>
    rw [hresult] at hnumber
    cases hnumber
  | @near b hresult _ hnear =>
    rw [hresult] at hnumber
    refine ⟨b.withSign n.negative, (Option.some.inj hnumber).symm, ?_⟩
    rcases hdouble.magnitude_cases hn with hzero | hlarge
    · rw [hzero, zero_mul] at hnear
      have hunits : b.units = 0 := Binary64.units_eq_zero_of_near hnear (by norm_num)
      exact .inl (point_mem_text_of_zero hunits)
    · have hone : (1 : ℚ) ≤ Binary64.one := by exact_mod_cast Binary64.unitsOfPower_pos 0
      have hlimit : 2 ^ 60 * Binary64.one < b.units := by
        have hlt := lt_of_near hone hlarge hnear
        exact_mod_cast hlt
      exact .inr (isInfix_text_of_large (a := b.withSign n.negative) hlimit)

end Numeral

end LoginService.Json
