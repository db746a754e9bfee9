import LoginService.Proofs.Binary64.Shortest
import LoginService.Proofs.Json.Number
import LoginService.Proofs.Json.Significand

/-!
# The text of doubles

The text of a decimal is a numeral of its value, in plain notation while the scientific exponent is
between -5 and 15 and in scientific notation otherwise. So the text of a double is a numeral of its
shortest decimal. Different doubles have different texts, and no double has the text of an integer.
-/

namespace LoginService

open Json Json.Numeral

namespace Json.Numeral

/-- The decimal that a numeral writes, its sign apart. -/
def decimal (n : Numeral) : Decimal :=
  ⟨digitsValue (n.whole ++ n.fraction), exponentValue n.exponent - n.fraction.length⟩

/-- The numeral is in plain notation, with digits on both sides of a point. -/
def IsPlain (n : Numeral) : Prop :=
  n.exponent = none ∧ n.fraction ≠ []

/-- The numeral is in scientific notation, with one digit other than zero before the point. -/
def IsScientific (n : Numeral) : Prop :=
  n.exponent ≠ none ∧ ∃ first, n.whole = [first] ∧ first ≠ '0'

/-- The decimal that a numeral writes has its magnitude. -/
theorem toRat_decimal (n : Numeral) : n.decimal.toRat = n.magnitude := by
  have hten : (10 : ℚ) ≠ 0 := by norm_num
  rw [Decimal.toRat, decimal, magnitude, mantissa, digitsValue_append, zpow_sub₀ hten, zpow_natCast]
  push_cast
  field_simp

/-- Zeros write nothing. -/
theorem digitsValue_replicate (zeros : Nat) : digitsValue (List.replicate zeros '0') = 0 := by
  induction zeros with
  | zero => rfl
  | succ zeros ih => rw [List.replicate_succ', digitsValue_append, ih, digitsValue_singleton]; rfl

/-- A numeral without a sign that writes digits from a power of ten on, in the notation for it. -/
structure Renders (n : Numeral) (digits : List Char) (exponent : Int) (text : List Char) :
    Prop where
  /-- The text spells it. -/
  spelled : n.SpelledBy text
  /-- It has no sign. -/
  unsigned : n.negative = false
  /-- It writes the digits. -/
  value : n.decimal.toRat = digitsValue digits * 10 ^ (exponent + 1 - digits.length)
  /-- Numbers of moderate size are in plain notation. -/
  plain : n.IsPlain ↔ -5 ≤ exponent ∧ exponent ≤ 15
  /-- All others are in scientific notation. -/
  scientific : n.IsScientific ↔ exponent < -5 ∨ 15 < exponent

/-- Digits in plain notation. -/
theorem Renders.of_plain {digits text whole fraction : List Char} {exponent : Int}
    (hwhole : WholeSpelledBy whole) (hfraction : DigitRun fraction)
    (htext : text = whole ++ '.' :: fraction)
    (hvalue : (digitsValue (whole ++ fraction) : ℚ) * 10 ^ (-fraction.length : Int) =
      digitsValue digits * 10 ^ (exponent + 1 - digits.length))
    (hrange : -5 ≤ exponent ∧ exponent ≤ 15) :
    Renders ⟨false, whole, fraction, none⟩ digits exponent text := by
  have hspelled : SpelledBy ⟨false, whole, fraction, none⟩ _ :=
    .mk hwhole (.present hfraction) .absent
  refine ⟨by simpa [htext] using hspelled, rfl, ?_, ?_, ?_⟩
  · rw [← hvalue, Decimal.toRat, decimal, exponentValue, zero_sub]
  · exact iff_of_true ⟨rfl, hfraction.1⟩ hrange
  · exact iff_of_false (fun h => h.1 rfl) (by omega)

/-- Digits in scientific notation. -/
theorem Renders.of_scientific {first : Char} {rest text : List Char} {exponent : Int} {e : Exponent}
    (hfirst : first ≠ '0') (hdigits : ∀ c ∈ first :: rest, c.isDigit)
    (he : ExponentSpelledBy (some e) text) (hvalue : exponentValue (some e) = exponent)
    (hrange : exponent < -5 ∨ 15 < exponent) :
    Renders ⟨false, [first], rest, some e⟩ (first :: rest) exponent
      (Decimal.pointed (first :: rest) ++ text) := by
  have hwhole : WholeSpelledBy [first] :=
    .positive (hdigits first List.mem_cons_self) hfirst (by simp)
  refine ⟨?_, rfl, ?_, ?_, ?_⟩
  · cases rest with
    | nil => exact .mk hwhole .absent he
    | cons second rest =>
      have hfraction : DigitRun (second :: rest) :=
        ⟨List.cons_ne_nil second rest, fun c hc => hdigits c (List.mem_cons_of_mem first hc)⟩
      exact .mk hwhole (.present hfraction) he
  · rw [Decimal.toRat, decimal, hvalue, List.length_cons]
    dsimp only
    congr 2
    push_cast
    ring
  · exact iff_of_false (fun h => absurd h.1 (Option.some_ne_none e)) (by omega)
  · exact iff_of_true ⟨Option.some_ne_none e, first, rfl, hfirst⟩ hrange

/-- Zeros are digits. -/
theorem isDigit_of_mem_replicate {zeros : Nat} : ∀ c ∈ List.replicate zeros '0', c.isDigit := by
  intro c hc
  rw [List.eq_of_mem_replicate hc]
  decide

section

variable {first : Char} {rest : List Char}

/-- Digits behind a point and zeros. -/
theorem exists_renders_belowOne (hdigits : ∀ c ∈ first :: rest, c.isDigit) {zeros : Nat}
    (h : zeros < 5) : ∃ n : Numeral, n.Renders (first :: rest) (-(zeros + 1 : Nat))
      ('0' :: '.' :: (List.replicate zeros '0' ++ first :: rest)) := by
  have hrun : DigitRun (List.replicate zeros '0' ++ first :: rest) :=
    ⟨by simp, List.forall_mem_append.mpr ⟨isDigit_of_mem_replicate, hdigits⟩⟩
  refine ⟨_, Renders.of_plain .zero hrun rfl ?_ (by omega)⟩
  have hvalue : digitsValue ('0' :: (List.replicate zeros '0' ++ first :: rest)) =
      digitsValue (first :: rest) := by
    rw [← List.cons_append, ← List.replicate_succ, digitsValue_append, digitsValue_replicate,
      Nat.zero_mul, Nat.zero_add]
  rw [List.singleton_append, hvalue, List.length_append, List.length_replicate]
  congr 2
  push_cast
  ring

/-- Digits before a point, with zeros up to it. -/
theorem exists_renders_whole (hfirst : first ≠ '0') (hdigits : ∀ c ∈ first :: rest, c.isDigit)
    {zeros : Nat} (hlength : (first :: rest).length + zeros ≤ 16) :
    ∃ n : Numeral, n.Renders (first :: rest) ((first :: rest).length + zeros - 1 : Int)
      (first :: rest ++ List.replicate zeros '0' ++ ['.', '0']) := by
  obtain ⟨hone, hmore⟩ := List.forall_mem_cons.mp hdigits
  have hwhole : WholeSpelledBy (first :: rest ++ List.replicate zeros '0') :=
    .positive hone hfirst (List.forall_mem_append.mpr ⟨hmore, isDigit_of_mem_replicate⟩)
  have hlast : DigitRun ['0'] := ⟨by simp, List.forall_mem_singleton.mpr rfl⟩
  have hpos : 0 < (first :: rest).length := by simp
  refine ⟨_, Renders.of_plain hwhole hlast (by simp) ?_ (by omega)⟩
  have hvalue : digitsValue (first :: rest ++ List.replicate zeros '0' ++ ['0']) =
      digitsValue (first :: rest) * 10 ^ (zeros + 1) := by
    rw [List.append_assoc, ← List.replicate_succ', digitsValue_append, digitsValue_replicate,
      List.length_replicate, Nat.add_zero]
  have hten : (10 : ℚ) ≠ 0 := by norm_num
  rw [hvalue, Nat.cast_mul, Nat.cast_pow, Nat.cast_ofNat, mul_assoc, ← zpow_natCast,
    ← zpow_add₀ hten]
  congr 2
  simp

/-- Digits on both sides of a point. -/
theorem exists_renders_mixed (hfirst : first ≠ '0') (hdigits : ∀ c ∈ first :: rest, c.isDigit)
    {front back : List Char} (hsplit : first :: rest = front ++ back) (hfront : front ≠ [])
    (hback : back ≠ []) (hlength : front.length ≤ 16) :
    ∃ n : Numeral, n.Renders (first :: rest) (front.length - 1 : Int) (front ++ '.' :: back) := by
  obtain ⟨front, rfl⟩ : ∃ more, front = first :: more := by
    cases front with
    | nil => exact absurd rfl hfront
    | cons c more =>
      rw [List.cons_append] at hsplit
      exact ⟨more, by rw [(List.cons.inj hsplit).1]⟩
  rw [hsplit] at hdigits ⊢
  obtain ⟨hbefore, hbehind⟩ := List.forall_mem_append.mp hdigits
  obtain ⟨hone, hmore⟩ := List.forall_mem_cons.mp hbefore
  have hpos : 0 < (first :: front).length := by simp
  refine ⟨_, Renders.of_plain (.positive hone hfirst hmore) ⟨hback, hbehind⟩ rfl ?_ (by omega)⟩
  rw [List.length_append]
  congr 2
  push_cast
  ring

/-- Digits that begin with another one than zero are rendered by every layout. -/
theorem exists_renders {text : List Char} {exponent : Int} (hfirst : first ≠ '0')
    (hdigits : ∀ c ∈ first :: rest, c.isDigit)
    (h : Decimal.Layout (first :: rest) exponent text) :
    ∃ n : Numeral, n.Renders (first :: rest) exponent text := by
  have hpower : ∀ n : Nat, DigitRun (Nat.toDigits 10 n) := fun n =>
    ⟨Nat.toDigits_ne_nil, fun c => Digits.isDigit_of_mem_toDigits⟩
  cases h with
  | belowOne h => exact exists_renders_belowOne hdigits h
  | whole hlength => exact exists_renders_whole hfirst hdigits hlength
  | mixed hsplit hfront hback hlength =>
    exact exists_renders_mixed hfirst hdigits hsplit hfront hback hlength
  | @large exponent h =>
    exact ⟨_, Renders.of_scientific hfirst hdigits (.plus (.inl rfl) (hpower exponent))
      (by simp [exponentValue, digitsValue]) (.inr (by omega))⟩
  | @small exponent h =>
    exact ⟨_, Renders.of_scientific hfirst hdigits (.minus (.inl rfl) (hpower exponent))
      (by simp [exponentValue, digitsValue]) (.inl (by omega))⟩

end

end Json.Numeral

namespace Decimal

/-- A decimal other than zero is what its digits write from its scientific exponent on. -/
theorem toRat_eq_digitsValue {d : Decimal} (h : d.coefficient ≠ 0) :
    d.toRat = digitsValue d.digits * 10 ^ (d.scientificExponent + 1 - d.digits.length) := by
  obtain ⟨c, exponent, hc⟩ := exists_normal h
  have hcount : 0 < (Nat.toDigits 10 c).length := Nat.length_toDigits_pos
  have hvalue : digitsValue (Nat.toDigits 10 c) = c := Nat.ofDigitChars_ten_toDigits
  rw [hc.toRat, hc.digits, hvalue, hc.scientific]
  congr 2
  omega

/-- The text of a decimal other than zero is a numeral of its value. -/
theorem exists_renders {d : Decimal} (h : d.coefficient ≠ 0) :
    ∃ n : Numeral, n.Renders d.digits d.scientificExponent d.text ∧ n.decimal.toRat = d.toRat := by
  obtain ⟨first, rest, hcons, hfirst, hdigits⟩ := digits_eq_cons h
  have hlayout := d.layout_text
  rw [hcons] at hlayout
  obtain ⟨n, hn⟩ := Numeral.exists_renders hfirst hdigits hlayout
  rw [← hcons] at hn
  exact ⟨n, hn, hn.value.trans (toRat_eq_digitsValue h).symm⟩

/-- Every layout has a point or an exponent. -/
theorem Layout.marked {digits text : List Char} {exponent : Int} (h : Layout digits exponent text) :
    '.' ∈ text ∨ 'e' ∈ text := by
  cases h <;> simp

end Decimal

namespace Binary64

/-- Another decimal of the same value is as short. -/
theorem IsShortest.of_toRat_eq {d other : Decimal} {units : Nat} (h : IsShortest d units)
    (heq : d.toRat = other.toRat) : IsShortest other units := by
  obtain ⟨hdigits, -⟩ := Decimal.eq_of_toRat_eq h.ne_zero heq
  have hother : other.coefficient ≠ 0 := by
    intro hzero
    rw [← Decimal.toRat_eq_zero_iff, ← heq, Decimal.toRat_eq_zero_iff] at hzero
    exact h.ne_zero hzero
  refine ⟨hother, heq ▸ h.rounded, ?_, ?_⟩
  · rw [← hdigits]
    exact h.shortest
  · rw [← hdigits, ← heq]
    exact h.closest

end Binary64

namespace Json

namespace Numeral

/-- A minus sign in front makes a numeral negative. -/
theorem SpelledBy.negated {n : Numeral} {text : List Char} (h : n.SpelledBy text)
    (hsign : n.negative = false) : SpelledBy { n with negative := true } ('-' :: text) := by
  obtain ⟨hwhole, hfraction, hexponent⟩ := h
  have hnegated : SpelledBy { n with negative := true } _ := .mk hwhole hfraction hexponent
  simpa [hsign] using hnegated

/-- A numeral writes a double: correctly rounded it is that double, its decimal is the shortest and
nearest with this property, and its notation is that for the size of the decimal. -/
structure Writes (n : Numeral) (a : Binary64) : Prop where
  /-- It has the sign of the double, also if that is zero. -/
  sign : n.negative = a.negative
  /-- Its magnitude is rounded to that of the double. -/
  rounded : Binary64.IsNearest (n.magnitude * Binary64.one) a.units
  /-- No shorter decimal is rounded to the double, and no nearer one that is as short. -/
  shortest : a.units ≠ 0 → Binary64.IsShortest n.decimal a.units
  /-- It is in plain notation if its first digit has a moderate power of ten. -/
  plain : n.IsPlain ↔ -5 ≤ n.decimal.scientificExponent ∧ n.decimal.scientificExponent ≤ 15
  /-- It is in scientific notation otherwise. -/
  scientific :
    n.IsScientific ↔ n.decimal.scientificExponent < -5 ∨ 15 < n.decimal.scientificExponent

/-- The shortest decimal of a double without a sign is written by a numeral. -/
theorem exists_writes_shortest {a : Binary64} (hsign : a.negative = false) :
    ∃ n : Numeral, n.SpelledBy (Binary64.shortest a.units).text ∧ n.Writes a := by
  by_cases hunits : a.units = 0
  · have hrun : DigitRun ['0'] := ⟨by simp, List.forall_mem_singleton.mpr rfl⟩
    have hspelled : SpelledBy ⟨false, ['0'], ['0'], none⟩ ['0', '.', '0'] :=
      .mk .zero (.present hrun) .absent
    have htext : (Binary64.shortest a.units).text = ['0', '.', '0'] := by
      rw [hunits]
      rfl
    have hzero : magnitude ⟨false, ['0'], ['0'], none⟩ = 0 := by
      rw [← toRat_decimal, Decimal.toRat_eq_zero_iff]
      rfl
    refine ⟨⟨false, ['0'], ['0'], none⟩, htext ▸ hspelled, hsign.symm, ?_, ?_, ?_, ?_⟩
    · rw [hzero, zero_mul, hunits]
      exact Binary64.isNearest_zero
    · exact fun hne => absurd hunits hne
    · exact iff_of_true ⟨rfl, by simp⟩ (by decide)
    · exact iff_of_false (fun h => h.1 rfl) (by decide)
  · have hshortest := Binary64.isShortest_shortest hunits a.precise
    obtain ⟨n, hrenders, hvalue⟩ := Decimal.exists_renders hshortest.ne_zero
    have hdecimal := hshortest.of_toRat_eq hvalue.symm
    obtain ⟨-, hexponent⟩ := Decimal.eq_of_toRat_eq hshortest.ne_zero hvalue.symm
    refine ⟨n, hrenders.spelled, hrenders.unsigned.trans hsign.symm, ?_, fun _ => hdecimal, ?_, ?_⟩
    · rw [← toRat_decimal]
      exact hdecimal.rounded
    · rw [← hexponent]
      exact hrenders.plain
    · rw [← hexponent]
      exact hrenders.scientific

/-- The text of a double is a numeral that writes it. -/
theorem exists_writes (a : Binary64) : ∃ n : Numeral, n.SpelledBy a.text.toList ∧ n.Writes a := by
  obtain ⟨n, hspelled, hwrites⟩ := exists_writes_shortest (a := a.withSign false) rfl
  rw [Binary64.text, String.toList_ofList]
  cases hsign : a.negative with
  | false => exact ⟨n, hspelled, { hwrites with sign := hwrites.sign.trans hsign.symm }⟩
  | true =>
    exact ⟨_, hspelled.negated hwrites.sign, { hwrites with sign := hsign.symm }⟩

/-- Every number is written as a numeral. -/
theorem exists_spelledBy_text (n : Number) :
    ∃ numeral : Numeral, numeral.SpelledBy n.text.toList := by
  cases n with
  | integer n => exact ⟨ofInteger n, spelledBy_integerText n⟩
  | double a =>
    obtain ⟨numeral, hspelled, -⟩ := exists_writes a
    exact ⟨numeral, hspelled⟩

/-- A text spells at most one numeral. -/
theorem SpelledBy.unique {n other : Numeral} {text : List Char} (h : n.SpelledBy text)
    (hother : other.SpelledBy text) : n = other := by
  have hread := h.read? notAhead_nil
  rw [hother.read? notAhead_nil] at hread
  exact (Prod.mk.inj (Option.some.inj hread)).1.symm

end Numeral

/-- The text of a double has a point or an exponent. -/
theorem marked_text (a : Binary64) : '.' ∈ a.text.toList ∨ 'e' ∈ a.text.toList := by
  have hmarked := (Binary64.shortest a.units).layout_text.marked
  rw [Binary64.text, String.toList_ofList]
  split
  · exact hmarked.imp (List.mem_cons_of_mem '-') (List.mem_cons_of_mem '-')
  · exact hmarked

/-- The text of an integer has neither. -/
theorem not_marked_integerText (n : Int) :
    ¬('.' ∈ (integerText n).toList ∨ 'e' ∈ (integerText n).toList) :=
  Numeral.not_marked_of_isInteger (Numeral.spelledBy_integerText n) ⟨rfl, rfl⟩

/-- Different doubles have different texts. -/
theorem doubleText_injective {a b : Binary64} (h : a.text = b.text) : a = b := by
  obtain ⟨n, hn, ha⟩ := Numeral.exists_writes a
  obtain ⟨m, hm, hb⟩ := Numeral.exists_writes b
  rw [← h] at hm
  obtain rfl := hn.unique hm
  exact Binary64.eq_of_units_eq (ha.sign.symm.trans hb.sign) (ha.rounded.unique hb.rounded)

/-- Different integers have different texts. -/
theorem integerText_injective {i j : Int} (h : integerText i = integerText j) : i = j := by
  have hi := Numeral.spelledBy_integerText i
  rw [h] at hi
  obtain ⟨hsign, hdigits, -, -⟩ := Numeral.mk.inj (hi.unique (Numeral.spelledBy_integerText j))
  have habs : i.natAbs = j.natAbs := by
    have hvalue := congrArg (Nat.ofDigitChars 10 · 0) hdigits
    simpa using hvalue
  have hnegative : i < 0 ↔ j < 0 := by simpa using hsign
  omega

/-- Numbers have the same text if and only if they are the same: the same integer, or the same
double, where the two zeros differ. -/
theorem Number.text_eq_iff {n m : Number} : n.text = m.text ↔ n = m := by
  constructor
  · intro h
    cases n with
    | integer i =>
      cases m with
      | integer j => rw [integerText_injective h]
      | double b =>
        have hmarked := marked_text b
        rw [← (show integerText i = b.text from h)] at hmarked
        exact absurd hmarked (not_marked_integerText i)
    | double a =>
      cases m with
      | integer j =>
        have hmarked := marked_text a
        rw [show a.text = integerText j from h] at hmarked
        exact absurd hmarked (not_marked_integerText j)
      | double b => rw [doubleText_injective h]
  · rintro rfl
    rfl

end Json

end LoginService
