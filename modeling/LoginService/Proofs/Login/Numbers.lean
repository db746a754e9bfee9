import LoginService.Proofs.Json.DecimalText
import LoginService.Proofs.Login.Place

/-!
# Numeric identifiers

A body whose last `requestId` is a number is read as the text of that number. The text of a double
is the shortest decimal that is rounded to it, and no integer has such a text. So two bodies of this
kind are read as the same identifier if and only if both hold the same number.
-/

namespace LoginService.Login

open Json

variable {body : Bytes} {n : Number}

/-- The body stands for an object whose last `requestId` is the number. -/
def HoldsNumber (body : Bytes) (n : Number) : Prop :=
  ∃ (v : Value) (members : List (String × Value)), v.EncodedBy body ∧
    v.Resolves (.object members) ∧ LastNamed identifierName members (.number n)

/-- A body that holds a number is read as its text. -/
theorem HoldsNumber.identifier_eq (h : HoldsNumber body n) : identifier body = .ok n.text := by
  obtain ⟨v, members, hbody, hresolves, hlast⟩ := h
  exact identifier_eq_ok_iff.mpr ⟨v, _, hbody, hresolves, .present hlast (.number n)⟩

/-- A body that writes an object whose last `requestId` is a number holds it if the body is read at
all. -/
theorem holdsNumber_of_encodedBy {members : List (String × Value)} {found : String}
    (hbody : (Value.object members).EncodedBy body)
    (hlast : LastNamed identifierName members (.number n)) (hread : identifier body = .ok found) :
    HoldsNumber body n := by
  obtain ⟨w, hw, -⟩ := (identifier_eq_ok_iff_of_encodedBy hbody).mp hread
  obtain ⟨all, rfl, hall⟩ := lastNamed_of_resolves hlast (.number n) hw
  exact ⟨_, all, hbody, hw, hall⟩

/-- A body with nothing but a `requestId` holds the number that its numeral is read as. -/
theorem holdsNumber_of_only {text : String} {front literal back : List Char} {numeral : Numeral}
    (htext : text.toList = front ++ literal ++ back)
    (hplace : Value.Place (fun v => .object [(identifierName, v)]) front back)
    (hspelled : numeral.SpelledBy literal) (hnumber : numeral.number? = some n) :
    HoldsNumber (Utf8.encode text) n := by
  have hbody : (Value.object [(identifierName, .number n)]).EncodedBy (Utf8.encode text) := by
    rw [Value.encodedBy_encode, htext]
    exact hplace.writtenBy hspelled hnumber
  exact ⟨_, _, hbody, (Names.number n).plain_only.resolves, [], [], rfl, by simp⟩

/-- How a body is read whose last `requestId` is a number. -/
structure NumbersIdentify (body : Bytes) : Prop where
  /-- A body that is read holds the number that it writes as the last `requestId`. -/
  held : ∀ (members : List (String × Value)) (n : Number) (found : String),
    (Value.object members).EncodedBy body → LastNamed identifierName members (.number n) →
      identifier body = .ok found → HoldsNumber body n
  /-- A double is read as a numeral that has its sign and is rounded to it, with the fewest digits
  that allow this and as close to it as they allow, in plain notation for numbers of moderate size
  and in scientific notation for all others. -/
  double : ∀ a : Binary64, HoldsNumber body (.double a) →
    ∃ (found : String) (numeral : Numeral), identifier body = .ok found ∧
      numeral.SpelledBy found.toList ∧ numeral.Writes a ∧
      ('.' ∈ found.toList ∨ 'e' ∈ found.toList)
  /-- Two bodies are read as the same identifier if and only if they hold the same integer or the
  same double, where the two zeros differ. -/
  same_iff : ∀ (other : Bytes) (n m : Number), HoldsNumber body n → HoldsNumber other m →
    (identifier body = identifier other ↔ n = m)

/-- Numbers are read as their texts, which tell them apart. -/
theorem numeric_identifiers (body : Bytes) : NumbersIdentify body := by
  constructor
  · intro members n found hbody hlast hread
    exact holdsNumber_of_encodedBy hbody hlast hread
  · intro a hbody
    obtain ⟨numeral, hspelled, hwrites⟩ := Numeral.exists_writes a
    exact ⟨a.text, numeral, hbody.identifier_eq, hspelled, hwrites, marked_text a⟩
  · intro other n m hbody hother
    rw [hbody.identifier_eq, hother.identifier_eq, Except.ok.injEq]
    exact Number.text_eq_iff

/-- One tenth and an integer are held by bodies, which are read as different identifiers. -/
theorem numeric_identifiers_tenth_seven :
    ∃ a : Binary64, HoldsNumber (Utf8.encode (onlyIdentifier "1e-1".toList)) (.double a) ∧
      HoldsNumber (Utf8.encode (onlyIdentifier ['7'])) (.integer 7) ∧
      (∃ (found : String) (numeral : Numeral),
        identifier (Utf8.encode (onlyIdentifier "1e-1".toList)) = .ok found ∧
          numeral.SpelledBy found.toList ∧ numeral.Writes a ∧
          ('.' ∈ found.toList ∨ 'e' ∈ found.toList)) ∧
      (identifier (Utf8.encode (onlyIdentifier "1e-1".toList)) =
          identifier (Utf8.encode (onlyIdentifier ['7'])) ↔ Number.double a = .integer 7) := by
  have hone : Numeral.WholeSpelledBy ['1'] := .positive (by decide) (by decide) (by simp)
  have hexponent : Numeral.ExponentSpelledBy (some ⟨true, ['1']⟩) ['e', '-', '1'] :=
    .minus (.inl rfl) ⟨by simp, by simp⟩
  have htenth : Numeral.SpelledBy ⟨false, ['1'], [], some ⟨true, ['1']⟩⟩ "1e-1".toList :=
    Numeral.SpelledBy.mk (n := ⟨false, ['1'], [], some ⟨true, ['1']⟩⟩) hone .absent hexponent
  have hwhole : Numeral.WholeSpelledBy ['7'] := .positive (by decide) (by decide) (by simp)
  have hseven : Numeral.SpelledBy ⟨false, ['7'], [], none⟩ ['7'] :=
    Numeral.SpelledBy.mk (n := ⟨false, ['7'], [], none⟩) hwhole .absent .absent
  have hread : (Numeral.magnitude? ⟨false, ['1'], [], some ⟨true, ['1']⟩⟩).isSome := by
    decide +kernel
  obtain ⟨a, ha⟩ := Option.isSome_iff_exists.mp hread
  have hnumber : Numeral.number? ⟨false, ['1'], [], some ⟨true, ['1']⟩⟩ =
      some (.double (a.withSign false)) := by
    rw [Numeral.number?, ha]
    rfl
  have hfirst := holdsNumber_of_only (toList_onlyIdentifier _) place_onlyIdentifier htenth hnumber
  have hbody : (Value.object [(identifierName, .number (.integer 7))]).EncodedBy
      (Utf8.encode (onlyIdentifier ['7'])) := by
    rw [Value.encodedBy_encode, toList_onlyIdentifier]
    exact place_onlyIdentifier.writtenBy hseven rfl
  have hsevenRead := identifier_of_only (toList_onlyIdentifier _) place_onlyIdentifier
    (.number hseven rfl) (.number (.integer 7))
  have hsecond : HoldsNumber (Utf8.encode (onlyIdentifier ['7'])) (.integer 7) :=
    (numeric_identifiers _).held _ _ _ hbody ⟨[], [], rfl, by simp⟩ hsevenRead
  refine ⟨_, hfirst, hsecond, ?_, ?_⟩
  · exact (numeric_identifiers _).double _ hfirst
  · exact (numeric_identifiers _).same_iff _ _ _ hfirst hsecond

end LoginService.Login
