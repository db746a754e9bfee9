import LoginService.Proofs.Json.Integer
import LoginService.Proofs.Login.Outcome
import LoginService.Proofs.Login.Place

/-!
# Integer identifiers

An integer of 64 bits is its own identifier, digit for digit. Any other integer literal gives the
text of a double or no identifier at all. The text of a double is not that of an integer, so no
integer literal gives the text of another integer.
-/

namespace LoginService.Login

open Json

variable {text : String} {front literal back : List Char} {numeral : Numeral}

/-- The numeral of an integer of 64 bits stands for it. -/
theorem number?_of_bounds {i : Int} (hlow : -2 ^ 63 ≤ i) (hhigh : i ≤ 2 ^ 64 - 1) :
    (Numeral.ofInteger i).number? = some (.integer i) := by
  apply Numeral.number?_ofInteger
  · rw [greatestNegated]
    omega
  · rw [greatestSignificand]
    omega

/-- The body with nothing but an integer of 64 bits is not too long. -/
theorem length_onlyIdentifier_integerText_le {i : Int} (hlow : -2 ^ 63 ≤ i)
    (hhigh : i ≤ 2 ^ 64 - 1) :
    (Utf8.encode (onlyIdentifier (integerText i).toList)).length ≤ bodyLimit := by
  have htext : (integerText i).toList.length ≤ 21 := by
    apply Numeral.length_integerText_le
    · rw [greatestNegated]
      omega
    · rw [greatestSignificand]
      omega
  apply length_onlyIdentifier_le
  rw [bodyLimit]
  omega

/-- What an integer literal in a body gives, between what stands before and behind it. -/
inductive IntegerRead (body : Bytes) (front literal back : List Char) (numeral : Numeral) :
    Prop where
  /-- It is the text of an integer of 64 bits. As the last `requestId` it is the identifier. -/
  | kept (i : Int) (hlow : -2 ^ 63 ≤ i) (hhigh : i ≤ 2 ^ 64 - 1)
      (hliteral : literal = (integerText i).toList)
      (hidentifier : ∀ fill, Value.Place fill front back → Designates fill →
        ∀ found, identifier body = .ok found ↔
          found = integerText i ∧ ∃ w, (fill (.number (.integer i))).Resolves w)
  /-- It is an integer beyond 64 bits, or minus zero. As the last `requestId` it gives the text of a
  double, if anything, which is neither the literal nor the text of an integer. -/
  | double
      (hvalue : numeral.value < -2 ^ 63 ∨ 2 ^ 64 - 1 < numeral.value ∨
        numeral.negative ∧ numeral.value = 0)
      (hidentifier : ∀ fill, Value.Place fill front back → Designates fill →
        ∀ found, identifier body = .ok found → ∃ a : Binary64,
          numeral.number? = some (.double a) ∧ found = a.text ∧
            ('.' ∈ found.toList ∨ ['e', '+'] <:+: found.toList) ∧ found.toList ≠ literal ∧
            ∀ i : Int, found ≠ integerText i)

/-- Every integer literal is of one of the two kinds. -/
theorem integerRead (htext : text.toList = front ++ literal ++ back)
    (hspelled : numeral.SpelledBy literal) (hinteger : numeral.IsInteger) :
    IntegerRead (Utf8.encode text) front literal back numeral := by
  by_cases hdouble : numeral.IsDouble
  · have hvalue : numeral.value < -2 ^ 63 ∨ 2 ^ 64 - 1 < numeral.value ∨
        numeral.negative ∧ numeral.value = 0 := by
      rcases hdouble with hfraction | hexponent | hvalue
      · exact absurd hinteger.1 hfraction
      · exact absurd hinteger.2 hexponent
      · exact hvalue
    refine .double hvalue fun fill hplace hdesignates found hread => ?_
    cases hnumber : numeral.number? with
    | none => exact absurd hread (identifier_ne_ok_of_number? htext hplace hspelled hnumber found)
    | some number =>
      obtain ⟨a, rfl, hmarked⟩ :=
        Numeral.exists_double_of_isInteger hspelled hinteger hdouble hnumber
      obtain ⟨hfound, -⟩ := (identifier_eq_ok_iff_of_place htext hplace hdesignates
        (.number hspelled hnumber) (.number _)).mp hread
      obtain rfl : found = a.text := hfound
      have hanywhere := marked_text a
      refine ⟨a, rfl, rfl, hmarked, ?_, ?_⟩
      · intro hsame
        rw [hsame] at hanywhere
        exact Numeral.not_marked_of_isInteger hspelled hinteger hanywhere
      · intro i hsame
        rw [hsame] at hanywhere
        exact not_marked_integerText i hanywhere
  · obtain ⟨i, hlow, hhigh, rfl, rfl⟩ := hspelled.exists_integer hinteger hdouble
    have hnumber := number?_of_bounds hlow hhigh
    refine .kept i hlow hhigh rfl fun fill hplace hdesignates found => ?_
    exact identifier_eq_ok_iff_of_place htext hplace hdesignates (.number hspelled hnumber)
      (.number _)

/-- What a literal gives as an identifier if it is that of an integer. -/
structure IntegersIdentify (literal : List Char) : Prop where
  /-- An integer of 64 bits is submitted as it is written. -/
  submitted : ∀ i : Int, -2 ^ 63 ≤ i → i ≤ 2 ^ 64 - 1 → literal = (integerText i).toList →
    Submits (Utf8.encode (onlyIdentifier literal)) (integerText i)
  /-- In every body, an integer is kept or gives the text of a double. -/
  read : ∀ (text : String) (front back : List Char) (numeral : Numeral),
    text.toList = front ++ literal ++ back → numeral.SpelledBy literal → numeral.IsInteger →
      IntegerRead (Utf8.encode text) front literal back numeral
  /-- If the identifier is the text of an integer, that is what the literal says. -/
  own : ∀ (text : String) (front back : List Char) (numeral : Numeral) (fill : Value → Value)
    (i : Int), text.toList = front ++ literal ++ back → numeral.SpelledBy literal →
      numeral.IsInteger → Value.Place fill front back → Designates fill →
        identifier (Utf8.encode text) = .ok (integerText i) → literal = (integerText i).toList

/-- An integer of 64 bits is its own identifier, and no other integer literal gives the text of an
integer. -/
theorem integer_identifiers (literal : List Char) : IntegersIdentify literal := by
  constructor
  · rintro i hlow hhigh rfl
    have hnumber := number?_of_bounds hlow hhigh
    have hread := identifier_of_only (toList_onlyIdentifier (integerText i).toList)
      place_onlyIdentifier (.number (Numeral.spelledBy_integerText i) hnumber) (.number _)
    exact submits_iff.mpr ⟨length_onlyIdentifier_integerText_le hlow hhigh, hread⟩
  · intro text front back numeral htext hspelled hinteger
    exact integerRead htext hspelled hinteger
  · intro text front back numeral fill i htext hspelled hinteger hplace hdesignates hread
    cases integerRead htext hspelled hinteger with
    | kept j _ _ hliteral hidentifier =>
      obtain ⟨hsame, -⟩ := (hidentifier fill hplace hdesignates _).mp hread
      rw [hliteral, hsame]
    | double _ hidentifier =>
      obtain ⟨a, -, -, -, -, hnone⟩ := hidentifier fill hplace hdesignates _ hread
      exact absurd rfl (hnone i)

/-- The greatest integer of 64 bits is kept, and minus zero is read in one of the two ways. -/
theorem integer_identifiers_greatest :
    (-2 ^ 63 ≤ (18446744073709551615 : Int) ∧ (18446744073709551615 : Int) ≤ 2 ^ 64 - 1) ∧
      Submits (Utf8.encode (onlyIdentifier (integerText 18446744073709551615).toList))
        (integerText 18446744073709551615) ∧
      IntegerRead (Utf8.encode (onlyIdentifier ['-', '0'])) "\x7b\"requestId\":".toList ['-', '0']
        ['\x7d'] ⟨true, ['0'], [], none⟩ ∧
      ['7'] = (integerText 7).toList := by
  have hzero : Numeral.SpelledBy ⟨true, ['0'], [], none⟩ ['-', '0'] :=
    Numeral.SpelledBy.mk (n := ⟨true, ['0'], [], none⟩) .zero .absent .absent
  have hseven : Numeral.SpelledBy ⟨false, ['7'], [], none⟩ ['7'] := Numeral.spelledBy_integerText 7
  have hread : identifier (Utf8.encode (onlyIdentifier ['7'])) = .ok (integerText 7) :=
    identifier_of_only (toList_onlyIdentifier _) place_onlyIdentifier (.number hseven rfl)
      (.number _)
  refine ⟨by decide, ?_, ?_, ?_⟩
  · exact (integer_identifiers _).submitted _ (by decide) (by decide) rfl
  · exact (integer_identifiers _).read _ _ _ _ (toList_onlyIdentifier _) hzero ⟨rfl, rfl⟩
  · exact (integer_identifiers _).own _ _ _ _ _ _ (toList_onlyIdentifier _) hseven ⟨rfl, rfl⟩
      place_onlyIdentifier designates_only hread

end LoginService.Login
