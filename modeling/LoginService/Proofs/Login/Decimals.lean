import LoginService.Proofs.Json.ShortDecimal
import LoginService.Proofs.Login.Accuracy
import LoginService.Proofs.Login.Outcome

/-!
# Decimal identifiers

A body with nothing but a decimal identifier of up to fifteen digits and a small exponent submits
exactly that number in canonical form. So two such bodies submit the same identifier if and only if
their numbers have the same sign and value, however they are spelled. The body must not be too long:
superfluous zeros are not cut off before it is measured.
-/

namespace LoginService.Login

open Json

variable {literal : List Char} {numeral : Numeral}

/-- A body with nothing but a short numeral is read as the double that is nearest to it. -/
theorem identifier_of_isShort (hspelled : numeral.SpelledBy literal) (hshort : numeral.IsShort)
    (hlength : (Utf8.encode (onlyIdentifier literal)).length ≤ bodyLimit) :
    ∃ a : Binary64, identifier (Utf8.encode (onlyIdentifier literal)) = .ok a.text ∧
      a.negative = numeral.negative ∧
      Binary64.IsNearest (numeral.magnitude * Binary64.one) a.units := by
  have hchars := Utf8.length_toList_le (onlyIdentifier literal)
  have hcount := hspelled.length_digits_le
  obtain ⟨hwhole, hfraction⟩ := hspelled.isDigit
  have hdigits : numeral.whole.length + numeral.fraction.length ≤ 2 ^ 30 := by
    rw [toList_onlyIdentifier, List.length_append, List.length_append] at hchars
    rw [bodyLimit] at hlength
    omega
  obtain ⟨a, hnumber, hsign, hnearest⟩ := hshort.exists_number? hwhole hfraction hdigits
  have hread := identifier_of_only (toList_onlyIdentifier literal) place_onlyIdentifier
    (.number hspelled hnumber) (.number _)
  exact ⟨a, hread, hsign, hnearest⟩

/-- What a literal of a short numeral gives as an identifier. -/
structure ShortDecimalIdentifies (literal : List Char) (numeral : Numeral) : Prop where
  /-- A body that is not too long, with nothing but the numeral, submits it in canonical form. -/
  submitted : (Utf8.encode (onlyIdentifier literal)).length ≤ bodyLimit →
    ∃ found, Submits (Utf8.encode (onlyIdentifier literal)) found ∧
      numeral.CanonicalText found.toList
  /-- Two such bodies submit the same identifier if and only if their numerals have the same sign
  and value. -/
  same_iff : ∀ (other : List Char) (m : Numeral) (found otherFound : String),
    m.SpelledBy other → m.IsShort → Submits (Utf8.encode (onlyIdentifier literal)) found →
      Submits (Utf8.encode (onlyIdentifier other)) otherFound →
        (found = otherFound ↔ numeral.negative = m.negative ∧ numeral.magnitude = m.magnitude)

/-- Short numerals are submitted in a form that depends on their sign and value only. -/
theorem short_decimals (hspelled : numeral.SpelledBy literal) (hshort : numeral.IsShort) :
    ShortDecimalIdentifies literal numeral := by
  constructor
  · intro hlength
    obtain ⟨a, hread, hsign, hnearest⟩ := identifier_of_isShort hspelled hshort hlength
    exact ⟨a.text, submits_iff.mpr ⟨hlength, hread⟩, hshort.canonicalText hsign hnearest⟩
  · intro other m found otherFound hother hotherShort hfound hotherFound
    obtain ⟨hlength, hread⟩ := submits_iff.mp hfound
    obtain ⟨hotherLength, hotherRead⟩ := submits_iff.mp hotherFound
    obtain ⟨a, ha, hasign, hanearest⟩ := identifier_of_isShort hspelled hshort hlength
    obtain ⟨b, hb, hbsign, hbnearest⟩ := identifier_of_isShort hother hotherShort hotherLength
    obtain rfl : found = a.text := Except.ok.inj (hread.symm.trans ha)
    obtain rfl : otherFound = b.text := Except.ok.inj (hotherRead.symm.trans hb)
    rw [← hshort.eq_iff hotherShort hasign hanearest hbsign hbnearest]
    exact ⟨doubleText_injective, congrArg Binary64.text⟩

/-- Two spellings of fifteen hundred are submitted as the same identifier. -/
theorem short_decimals_fifteenHundred :
    ∃ found, Submits (Utf8.encode (onlyIdentifier "1.50e3".toList)) found ∧
      Numeral.CanonicalText ⟨false, ['1'], ['5', '0'], some ⟨false, ['3']⟩⟩ found.toList ∧
      Submits (Utf8.encode (onlyIdentifier "15e2".toList)) found := by
  have hspelled : Numeral.SpelledBy ⟨false, ['1'], ['5', '0'], some ⟨false, ['3']⟩⟩
      "1.50e3".toList :=
    Numeral.SpelledBy.mk (n := ⟨false, ['1'], ['5', '0'], some ⟨false, ['3']⟩⟩)
      (.positive (by decide) (by decide) (by simp)) (.present ⟨by simp, by simp⟩)
      (.unsigned (.inl rfl) ⟨by simp, by simp⟩)
  have hother : Numeral.SpelledBy ⟨false, ['1', '5'], [], some ⟨false, ['2']⟩⟩ "15e2".toList :=
    Numeral.SpelledBy.mk (n := ⟨false, ['1', '5'], [], some ⟨false, ['2']⟩⟩)
      (.positive (by decide) (by decide) (by simp)) .absent
      (.unsigned (.inl rfl) ⟨by simp, by simp⟩)
  have hshort : Numeral.IsShort ⟨false, ['1'], ['5', '0'], some ⟨false, ['3']⟩⟩ :=
    ⟨.inl (by simp), by decide, by decide, by decide⟩
  have hotherShort : Numeral.IsShort ⟨false, ['1', '5'], [], some ⟨false, ['2']⟩⟩ :=
    ⟨.inr (by simp), by decide, by decide, by decide⟩
  have hvalue : Numeral.magnitude ⟨false, ['1'], ['5', '0'], some ⟨false, ['3']⟩⟩ =
      Numeral.magnitude ⟨false, ['1', '5'], [], some ⟨false, ['2']⟩⟩ := by
    have hdigits : Numeral.digitsValue ['1', '5', '0'] = 150 := by decide
    have hotherDigits : Numeral.digitsValue ['1', '5'] = 15 := by decide
    have hexponent : Numeral.digitsValue ['3'] = 3 := by decide
    have hotherExponent : Numeral.digitsValue ['2'] = 2 := by decide
    rw [← Numeral.toRat_decimal, ← Numeral.toRat_decimal]
    norm_num [Decimal.toRat, Numeral.decimal, Numeral.exponentValue, hdigits, hotherDigits,
      hexponent, hotherExponent]
  have hidentifies := short_decimals hspelled hshort
  obtain ⟨found, hfound, htext⟩ := hidentifies.submitted (by decide)
  obtain ⟨other, hsubmits, -⟩ := (short_decimals hother hotherShort).submitted (by decide)
  have hsame :=
    (hidentifies.same_iff _ _ _ _ hother hotherShort hfound hsubmits).mpr ⟨rfl, hvalue⟩
  exact ⟨found, hfound, htext, hsame ▸ hsubmits⟩

/-- One, spelled with zeros behind the point and an exponent that makes up for them. -/
def paddedOne (zeros : Nat) : Numeral :=
  ⟨false, ['0'], List.replicate zeros '0' ++ ['1'], some ⟨false, Nat.toDigits 10 (zeros + 1)⟩⟩

/-- The spelling of one with zeros behind the point. -/
def paddedLiteral (zeros : Nat) : List Char :=
  ['0'] ++ '.' :: (List.replicate zeros '0' ++ ['1']) ++ 'e' :: Nat.toDigits 10 (zeros + 1)

/-- It spells that numeral. -/
theorem spelledBy_paddedLiteral (zeros : Nat) :
    (paddedOne zeros).SpelledBy (paddedLiteral zeros) := by
  have hfraction : Numeral.DigitRun (List.replicate zeros '0' ++ ['1']) := by
    refine ⟨by simp, fun c hc => ?_⟩
    rcases List.mem_append.mp hc with hc | hc
    · rw [List.eq_of_mem_replicate hc]
      decide
    · rw [List.mem_singleton.mp hc]
      decide
  have hexponent : Numeral.DigitRun (Nat.toDigits 10 (zeros + 1)) :=
    ⟨Nat.toDigits_ne_nil, fun c => Digits.isDigit_of_mem_toDigits⟩
  exact Numeral.SpelledBy.mk (n := paddedOne zeros) .zero (.present hfraction)
    (.unsigned (.inl rfl) hexponent)

/-- It has one digit, and the power of ten of that digit is one. -/
theorem isShort_paddedOne (zeros : Nat) : (paddedOne zeros).IsShort := by
  have hdigits :
      Numeral.digitsValue ((paddedOne zeros).whole ++ (paddedOne zeros).fraction) = 1 := by
    rw [paddedOne, ← List.append_assoc, ← List.replicate_one, ← List.replicate_add,
      Numeral.digitsValue_append, Numeral.digitsValue_replicate]
    rfl
  have hexponent : Numeral.exponentValue (paddedOne zeros).exponent -
      (paddedOne zeros).fraction.length = 0 := by
    simp [paddedOne, Numeral.exponentValue, Numeral.digitsValue]
  refine ⟨.inl (by simp [paddedOne]), ?_, ?_, ?_⟩
  · rw [hdigits]
    decide
  · rw [hexponent]
    decide
  · rw [hexponent]
    decide

/-- With many zeros the body is too long, and nothing is submitted. -/
theorem not_submits_paddedLiteral {zeros : Nat} (h : bodyLimit ≤ zeros) (found : String) :
    ¬Submits (Utf8.encode (onlyIdentifier (paddedLiteral zeros))) found := by
  intro hsubmits
  have hlength := (submits_iff.mp hsubmits).1
  have hchars := Utf8.length_toList_le (onlyIdentifier (paddedLiteral zeros))
  have hcount := (spelledBy_paddedLiteral zeros).length_digits_le
  have hfraction : (paddedOne zeros).fraction.length = zeros + 1 := by simp [paddedOne]
  rw [toList_onlyIdentifier, List.length_append, List.length_append] at hchars
  omega

/-- One is not submitted if it is spelled with more zeros than a body may have bytes. -/
theorem not_short_decimals_padded :
    (paddedOne 2097152).SpelledBy (paddedLiteral 2097152) ∧ (paddedOne 2097152).IsShort ∧
      ¬∃ found, Submits (Utf8.encode (onlyIdentifier (paddedLiteral 2097152))) found ∧
        (paddedOne 2097152).CanonicalText found.toList := by
  refine ⟨spelledBy_paddedLiteral _, isShort_paddedOne _, ?_⟩
  rintro ⟨found, hfound, -⟩
  exact not_submits_paddedLiteral (Nat.le_refl bodyLimit) found hfound

end LoginService.Login
