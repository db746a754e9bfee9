import LoginService.Proofs.Json.Accuracy
import LoginService.Proofs.Login.Place

/-!
# How accurate numeric identifiers are

What becomes of a numeral in a body that is read as a double. Either it is out of range, which its
value nearly is, and spoils the body, or the body writes a double that is close to that value. The
identifier is the text of that double if the numeral stands as the last `requestId`.
-/

namespace LoginService

namespace Login

open Json

/-- What becomes of a numeral in a body, between what stands before and behind it. -/
inductive NumeralRead (body : Bytes) (front back : List Char) (numeral : Numeral) : Prop where
  /-- It has no value, and its magnitude is hardly below 2^1024. No body with it in a place writes a
  value. -/
  | outOfRange (hnumber : numeral.number? = none)
      (hvalue : (1 - 1 / 2 ^ 50) * 2 ^ 1024 ≤ |numeral.value|)
      (hbody : ∀ fill, Value.Place fill front back →
        identifier body = .error .unreadable ∧ ∀ v : Value, ¬v.EncodedBy body)
  /-- It is read as a double, which has its sign and is close to its value. In a place it writes
  that double, and does not spoil the body there. As the last `requestId` it gives the
  identifier. -/
  | double (a : Binary64) (hnumber : numeral.number? = some (.double a))
      (hsign : a.negative = numeral.negative)
      (hvalue : |a.toRat - numeral.value| ≤ 1 / 2 ^ 50 * |numeral.value| + 1 / 2 ^ 1074)
      (hbody : ∀ fill, Value.Place fill front back → (fill (.number (.double a))).EncodedBy body)
      (hidentifier : ∀ fill, Value.Place fill front back → Designates fill →
        ∀ found, identifier body = .ok found ↔
          found = a.text ∧ ∃ w, (fill (.number (.double a))).Resolves w)

/-- Every numeral in a body that is not read as an integer is out of range only if its value nearly
is, and otherwise read as a double with its sign and close to its value, whatever the number of its
digits and the size of its exponent. -/
theorem numeral_accuracy {text : String} {front literal back : List Char} {numeral : Numeral}
    (htext : text.toList = front ++ literal ++ back) (hspelled : numeral.SpelledBy literal)
    (hdouble : numeral.IsDouble) (hlength : (Utf8.encode text).length ≤ bodyLimit) :
    NumeralRead (Utf8.encode text) front back numeral := by
  have hchars := Utf8.length_toList_le text
  have hdigits := hspelled.length_digits_le
  obtain ⟨hwhole, hfraction⟩ := hspelled.isDigit
  have hshort : numeral.whole.length + numeral.fraction.length ≤ 2 ^ 30 := by
    rw [htext, List.length_append, List.length_append] at hchars
    rw [bodyLimit] at hlength
    omega
  rcases Numeral.number?_of_isDouble hdouble hwhole hfraction hshort with
    ⟨a, hnumber, hsign, hvalue⟩ | ⟨hnumber, hvalue⟩
  · have hbody : ∀ fill, Value.Place fill front back →
        (fill (.number (.double a))).EncodedBy (Utf8.encode text) := by
      intro fill hplace
      rw [Value.encodedBy_encode, htext]
      exact hplace.writtenBy hspelled hnumber
    refine .double a hnumber hsign hvalue hbody fun fill hplace hdesignates found => ?_
    obtain ⟨members, hmembers, hlast⟩ := hdesignates (.number (.double a))
    rw [identifier_eq_ok_iff_of_encodedBy (hbody fill hplace), hmembers]
    constructor
    · rintro ⟨w, hw, hcarries⟩
      exact ⟨hcarries.unique (carries_of_resolves hlast hw), w, hw⟩
    · rintro ⟨rfl, w, hw⟩
      exact ⟨w, hw, carries_of_resolves hlast hw⟩
  · refine .outOfRange hnumber hvalue fun fill hplace => ?_
    have hnone : ∀ v : Value, ¬v.EncodedBy (Utf8.encode text) := by
      intro v hv
      rw [Value.encodedBy_encode, htext] at hv
      exact hplace.not_writtenBy hspelled hnumber v hv
    refine ⟨?_, hnone⟩
    rw [identifier_eq_unreadable_iff]
    rintro ⟨v, -, hv, -⟩
    exact hnone v hv

/-- The body of a login with a fractional identifier. -/
def fractionalIdentifier : String :=
  "\x7b\"requestId\":0.1\x7d"

/-- That fraction is read in this way, and decides the identifier. -/
theorem numeral_accuracy_fractionalIdentifier :
    Numeral.IsDouble ⟨false, ['0'], ['1'], none⟩ ∧
      Value.Place (fun v => .object [(identifierName, v)]) "\x7b\"requestId\":".toList ['\x7d'] ∧
      Designates (fun v => .object [(identifierName, v)]) ∧
      NumeralRead (Utf8.encode fractionalIdentifier) "\x7b\"requestId\":".toList ['\x7d']
        ⟨false, ['0'], ['1'], none⟩ := by
  have hspelled : Numeral.SpelledBy ⟨false, ['0'], ['1'], none⟩ ['0', '.', '1'] :=
    .mk .zero (.present ⟨by simp, by simp⟩) .absent
  have hdouble : Numeral.IsDouble ⟨false, ['0'], ['1'], none⟩ := .inl (by simp)
  have hfront : '\x7b' :: (Quoted.literal identifierName ++ [':']) =
      "\x7b\"requestId\":".toList := by decide
  have htext : fractionalIdentifier.toList =
      "\x7b\"requestId\":".toList ++ ['0', '.', '1'] ++ ['\x7d'] := by decide
  exact ⟨hdouble, hfront ▸ place_only identifierName, designates_only,
    numeral_accuracy htext hspelled hdouble (by decide)⟩

end Login

end LoginService
