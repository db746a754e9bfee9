import LoginService.Proofs.Binary64.Exact
import LoginService.Proofs.Json.Accuracy
import LoginService.Proofs.Json.DecimalText

/-!
# Numerals of up to fifteen digits

A numeral with a fraction or an exponent, up to fifteen digits and a small power of ten for the last
of them is read as the double nearest to it. The text of that double writes the value of the numeral
again, however the numeral is spelled.
-/

namespace LoginService.Json.Numeral

variable {n other : Numeral}

/-- A numeral with a fraction or an exponent, up to fifteen digits and a small power of ten for the
last of them. -/
structure IsShort (n : Numeral) : Prop where
  /-- It is not an integer. -/
  marked : n.fraction ≠ [] ∨ n.exponent ≠ none
  /-- Its digits, read as one number, are below 10^15. -/
  digits : digitsValue (n.whole ++ n.fraction) < 10 ^ 15
  /-- The power of ten of the last digit is not below 10^-22. -/
  low : -22 ≤ exponentValue n.exponent - n.fraction.length
  /-- The power of ten of the last digit is not above 10^22. -/
  high : exponentValue n.exponent - n.fraction.length ≤ 22

/-- The text that a numeral has once it is written in canonical form: its sign, and its digits
without the zeros at their end, laid out from the power of ten of the first of them on. -/
inductive CanonicalText (n : Numeral) : List Char → Prop where
  /-- Zero has one digit on each side of the point. -/
  | zero (hdigits : digitsValue (n.whole ++ n.fraction) = 0) :
      CanonicalText n ((if n.negative then ['-'] else []) ++ ['0', '.', '0'])
  /-- Other digits are laid out by their scientific exponent. -/
  | digits {c zeros : Nat} {exponent : Int} {text : List Char}
      (hdigits : digitsValue (n.whole ++ n.fraction) = c * 10 ^ zeros) (hlast : ¬10 ∣ c)
      (hlow : 10 ^ exponent ≤ n.magnitude) (hhigh : n.magnitude < 10 ^ (exponent + 1))
      (hlayout : Decimal.Layout (Nat.toDigits 10 c) exponent text) :
      CanonicalText n ((if n.negative then ['-'] else []) ++ text)

/-- Up to fifteen digits are gathered in full. -/
theorem significand_eq (h : digitsValue (n.whole ++ n.fraction) ≤ greatestSignificand) :
    n.significand = ⟨digitsValue (n.whole ++ n.fraction), -n.fraction.length⟩ := by
  have hsplit : digitsValue (n.whole ++ n.fraction) =
      Nat.ofDigitChars 10 n.fraction (digitsValue n.whole) := by
    rw [digitsValue, Nat.ofDigitChars_append]
    rfl
  have hwhole : digitsValue n.whole ≤ greatestSignificand := by
    refine Nat.le_trans ?_ h
    rw [hsplit]
    exact Digits.le_ofDigitChars n.fraction _
  have hfirst : Digits.gather greatestSignificand 0 n.whole = (digitsValue n.whole, []) :=
    (Digits.gather_eq_iff (Nat.zero_le _)).mpr ⟨rfl, hwhole⟩
  have hsecond : Digits.gather greatestSignificand (digitsValue n.whole) n.fraction =
      (digitsValue (n.whole ++ n.fraction), []) :=
    (Digits.gather_eq_iff hwhole).mpr ⟨hsplit, h⟩
  simp only [significand, hfirst, hsecond, List.length_nil, Nat.sub_zero, Nat.cast_zero, zero_sub]

/-- A short numeral is read as the double that is nearest to it. -/
theorem IsShort.exists_number? (h : n.IsShort) (hwhole : ∀ c ∈ n.whole, c.isDigit)
    (hfraction : ∀ c ∈ n.fraction, c.isDigit)
    (hlength : n.whole.length + n.fraction.length ≤ 2 ^ 30) :
    ∃ a : Binary64, n.number? = some (.double a) ∧ a.negative = n.negative ∧
      Binary64.IsNearest (n.magnitude * Binary64.one) a.units := by
  have hdigits := h.digits
  have hsignificand := significand_eq (n := n) (by rw [greatestSignificand]; omega)
  obtain ⟨a, ha, -, hmagnitude⟩ := magnitude?_eq hwhole hfraction fun _ => hlength
  have hexponent : n.significand.exponent + exponentValue n.exponent =
      exponentValue n.exponent - n.fraction.length := by
    rw [hsignificand]
    dsimp only
    omega
  rw [hexponent] at hmagnitude
  rw [hsignificand] at ha
  obtain ⟨exact, hexact, hsign, hunits⟩ := Binary64.exists_ofNat?_exact
    (m := digitsValue (n.whole ++ n.fraction)) (e := 0) (by omega) (by decide)
  rw [Nat.pow_zero, Nat.mul_one] at hexact hunits
  obtain rfl : exact = a := Option.some.inj (hexact.symm.trans ha)
  obtain ⟨b, hb, -, hnearest⟩ := Binary64.exists_scale?_exact hsign hunits hdigits h.low h.high
  have hdouble : n.IsDouble := h.marked.imp_right .inl
  refine ⟨b.withSign n.negative, ?_, rfl, ?_⟩
  · rw [number?, integer?_eq_none_iff.mpr hdouble, hmagnitude, hb]
    rfl
  · rw [← toRat_decimal]
    exact hnearest

/-- The shortest decimal of that double has the magnitude of the numeral. -/
theorem IsShort.magnitude_eq (h : n.IsShort) {units : Nat}
    (hnearest : Binary64.IsNearest (n.magnitude * Binary64.one) units) :
    n.magnitude = (Binary64.shortest units).toRat := by
  rw [← toRat_decimal] at hnearest ⊢
  by_cases hzero : n.decimal.coefficient = 0
  · have hvalue : n.decimal.toRat = 0 := Decimal.toRat_eq_zero_iff.mpr hzero
    rw [hvalue, zero_mul] at hnearest
    rw [hvalue, hnearest.unique Binary64.isNearest_zero]
    exact (Decimal.toRat_eq_zero_iff.mpr rfl).symm
  · exact Binary64.toRat_shortest_eq hzero h.digits h.low hnearest

/-- The text of that double is the numeral in canonical form. -/
theorem IsShort.canonicalText (h : n.IsShort) {a : Binary64} (hsign : a.negative = n.negative)
    (hnearest : Binary64.IsNearest (n.magnitude * Binary64.one) a.units) :
    n.CanonicalText a.text.toList := by
  have htext : a.text.toList =
      (if n.negative then ['-'] else []) ++ (Binary64.shortest a.units).text := by
    rw [Binary64.text, String.toList_ofList, hsign]
    cases n.negative <;> rfl
  have hvalue := h.magnitude_eq hnearest
  rw [htext]
  by_cases hzero : n.decimal.coefficient = 0
  · have hunits : a.units = 0 := by
      rw [← toRat_decimal, Decimal.toRat_eq_zero_iff.mpr hzero, zero_mul] at hnearest
      exact hnearest.unique Binary64.isNearest_zero
    have hshortest : (Binary64.shortest a.units).text = ['0', '.', '0'] := by
      rw [hunits]
      rfl
    rw [hshortest]
    exact .zero hzero
  · obtain ⟨zeros, c, hc, hcoefficient⟩ := Nat.exists_eq_pow_mul_and_not_dvd hzero 10 (by decide)
    rw [Nat.mul_comm] at hcoefficient
    obtain ⟨c', exponent, hnormal⟩ := Decimal.exists_normal hzero
    obtain ⟨hlow, hhigh⟩ := hnormal.bounds
    rw [toRat_decimal] at hlow hhigh
    have hlayout := n.decimal.layout_text
    rw [Decimal.digits_of_coefficient_eq hc hcoefficient,
      Decimal.text_eq_of_toRat_eq hzero ((toRat_decimal n).trans hvalue)] at hlayout
    exact .digits hcoefficient hc hlow hhigh hlayout

/-- Short numerals are read as the same double if and only if they have the same sign and value. -/
theorem IsShort.eq_iff (h : n.IsShort) (hother : other.IsShort) {a b : Binary64}
    (hsign : a.negative = n.negative)
    (hnearest : Binary64.IsNearest (n.magnitude * Binary64.one) a.units)
    (hsignOther : b.negative = other.negative)
    (hnearestOther : Binary64.IsNearest (other.magnitude * Binary64.one) b.units) :
    a = b ↔ n.negative = other.negative ∧ n.magnitude = other.magnitude := by
  constructor
  · rintro rfl
    exact ⟨hsign.symm.trans hsignOther,
      (h.magnitude_eq hnearest).trans (hother.magnitude_eq hnearestOther).symm⟩
  · rintro ⟨hsame, hvalue⟩
    rw [hvalue] at hnearest
    exact Binary64.eq_of_units_eq (hsign.trans (hsame.trans hsignOther.symm))
      (hnearest.unique hnearestOther)

end LoginService.Json.Numeral
