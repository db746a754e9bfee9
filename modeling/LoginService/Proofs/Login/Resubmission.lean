import LoginService.Proofs.Json.Reread
import LoginService.Proofs.Login.Integers
import LoginService.Proofs.Login.Numbers

/-!
# Submitting a numeric identifier again

The identifier of a number is its text, and a text of a number can be submitted as a number. An
integer then gives the same identifier. A double gives a double next to it, which is never out of
range, and zero gives the same zero.
-/

namespace LoginService

namespace Json.Value

mutual

/-- Every number in the value has a property. -/
def NumbersHave (P : Number → Prop) : Value → Prop
  | .number n => P n
  | .array items => ItemNumbersHave P items
  | .object members => MemberNumbersHave P members
  | _ => True

/-- Every number in the items has a property. -/
def ItemNumbersHave (P : Number → Prop) : List Value → Prop
  | [] => True
  | v :: items => v.NumbersHave P ∧ ItemNumbersHave P items

/-- Every number in the values of the members has a property. -/
def MemberNumbersHave (P : Number → Prop) : List (String × Value) → Prop
  | [] => True
  | (_, v) :: members => v.NumbersHave P ∧ MemberNumbersHave P members

end

/-- The numbers in members have a property if those in the value of each of them have it. -/
theorem memberNumbersHave_iff {P : Number → Prop} {members : List (String × Value)} :
    MemberNumbersHave P members ↔ ∀ m ∈ members, m.2.NumbersHave P := by
  induction members with
  | nil => simp [MemberNumbersHave]
  | cons m members ih => simp [MemberNumbersHave, ih]

mutual

/-- Every number in a value that is spelled is read from a numeral. -/
theorem SpelledBy.numbersHave : ∀ {v : Value} {text : List Char}, v.SpelledBy text →
    v.NumbersHave Number.IsRead
  | _, _, .null | _, _, .true | _, _, .false | _, _, .string _ => trivial
  | _, _, .emptyArray _ | _, _, .emptyObject _ => trivial
  | _, _, .number _ hnumber => ⟨_, hnumber⟩
  | _, _, .array hitems => hitems.numbersHave
  | _, _, .object hmembers => hmembers.numbersHave

/-- Every number in items that are spelled is read from a numeral. -/
theorem ItemsSpelledBy.numbersHave : ∀ {items : List Value} {text : List Char},
    ItemsSpelledBy items text → ItemNumbersHave Number.IsRead items
  | _, _, .last _ hv _ => ⟨hv.numbersHave, trivial⟩
  | _, _, .more _ hv _ hitems => ⟨hv.numbersHave, hitems.numbersHave⟩

/-- Every number in members that are spelled is read from a numeral. -/
theorem MembersSpelledBy.numbersHave : ∀ {members : List (String × Value)} {text : List Char},
    MembersSpelledBy members text → MemberNumbersHave Number.IsRead members
  | _, _, .last _ _ _ _ hv _ => ⟨hv.numbersHave, trivial⟩
  | _, _, .more _ _ _ _ hv _ hmembers => ⟨hv.numbersHave, hmembers.numbersHave⟩

end

/-- Every number in a value that is written is read from a numeral. -/
theorem WrittenBy.numbersHave {v : Value} {text : List Char} (h : v.WrittenBy text) :
    v.NumbersHave Number.IsRead := by
  obtain ⟨_, hv, _, _⟩ := h
  exact hv.numbersHave

mutual

/-- Every number in what a value stands for is read from a numeral if those in the value are. One
from an embedded text is read there. -/
theorem Resolves.numbersHave : ∀ {v w : Value}, v.Resolves w → v.NumbersHave Number.IsRead →
    w.NumbersHave Number.IsRead
  | _, _, .null, _ | _, _, .bool _, _ | _, _, .string _, _ => trivial
  | _, _, .number _, hnumber => hnumber
  | _, _, .array hitems, h => hitems.numbersHave h
  | _, _, .object _ hmembers, h => hmembers.numbersHave h
  | _, _, .embedded hs hv, _ => hv.numbersHave hs.numbersHave

/-- Every number in what items stand for is read from a numeral if those in the items are. -/
theorem ItemsResolve.numbersHave : ∀ {items found : List Value}, ItemsResolve items found →
    ItemNumbersHave Number.IsRead items → ItemNumbersHave Number.IsRead found
  | _, _, .nil, _ => trivial
  | _, _, .cons hv hitems, h => ⟨hv.numbersHave h.1, hitems.numbersHave h.2⟩

/-- Every number in what members stand for is read from a numeral if those in the members are. -/
theorem MembersResolve.numbersHave : ∀ {members found : List (String × Value)},
    MembersResolve members found → MemberNumbersHave Number.IsRead members →
      MemberNumbersHave Number.IsRead found
  | _, _, .nil, _ => trivial
  | _, _, .cons hv hmembers, h => ⟨hv.numbersHave h.1, hmembers.numbersHave h.2⟩

end

end Json.Value

namespace Login

open Json

variable {body : Bytes} {n : Number}

/-- A number that a body holds is read from a numeral, in the body or in a text embedded in it. -/
theorem HoldsNumber.isRead (h : HoldsNumber body n) : n.IsRead := by
  obtain ⟨v, members, ⟨text, -, hwritten⟩, hresolves, before, after, rfl, -⟩ := h
  have hall := Value.memberNumbersHave_iff.mp (hresolves.numbersHave hwritten.numbersHave)
  exact hall (identifierName, .number n) (by simp)

/-- The body with nothing but a number that is read is not too long. -/
theorem length_onlyIdentifier_text_le (h : n.IsRead) :
    (Utf8.encode (onlyIdentifier n.text.toList)).length ≤ bodyLimit := by
  have htext := h.length_text_le
  apply length_onlyIdentifier_le
  rw [bodyLimit]
  omega

/-- A body whose last `requestId` is a number is read as the text of that number. The body with
nothing but this text, as a number, is accepted as well. Its number is the same integer, or a double
of the same sign at a distance of at most 2^-49 of its magnitude and two units of the subnormal
range, which for zero is the same zero. -/
theorem numeric_resubmission (h : HoldsNumber body n) :
    identifier body = .ok n.text ∧
      ∃ m, HoldsNumber (Utf8.encode (onlyIdentifier n.text.toList)) m ∧
        Submits (Utf8.encode (onlyIdentifier n.text.toList)) m.text ∧ n.Resembles m := by
  obtain ⟨numeral, m, hspelled, hnumber, hresembles⟩ := h.isRead.exists_resembles
  have hagain : HoldsNumber (Utf8.encode (onlyIdentifier n.text.toList)) m :=
    holdsNumber_of_only (toList_onlyIdentifier _) place_onlyIdentifier hspelled hnumber
  refine ⟨h.identifier_eq, m, hagain, ?_, hresembles⟩
  exact submits_iff.mpr ⟨length_onlyIdentifier_text_le h.isRead, hagain.identifier_eq⟩

/-- Minus zero is written as an integer and read as a double, whose text is read as minus zero. -/
theorem numeric_resubmission_negative_zero :
    HoldsNumber (Utf8.encode (onlyIdentifier ['-', '0']))
        (.double (Binary64.zero.withSign true)) ∧
      identifier (Utf8.encode (onlyIdentifier ['-', '0'])) = .ok "-0.0" ∧
      HoldsNumber (Utf8.encode (onlyIdentifier "-0.0".toList))
        (.double (Binary64.zero.withSign true)) := by
  have hspelled : Numeral.SpelledBy ⟨true, ['0'], [], none⟩ ['-', '0'] :=
    Numeral.SpelledBy.mk (n := ⟨true, ['0'], [], none⟩) .zero .absent .absent
  have hunits : (Numeral.magnitude? ⟨true, ['0'], [], none⟩).map Binary64.units = some 0 := by
    decide +kernel
  obtain ⟨a, ha, hzero⟩ := Option.map_eq_some_iff.mp hunits
  have hsame : a.withSign true = Binary64.zero.withSign true :=
    Binary64.eq_of_units_eq_zero rfl hzero rfl
  have hnumber : Numeral.number? ⟨true, ['0'], [], none⟩ = some (.double (a.withSign true)) := by
    rw [Numeral.number?, ha]
    rfl
  rw [hsame] at hnumber
  have hbody : HoldsNumber (Utf8.encode (onlyIdentifier ['-', '0']))
      (.double (Binary64.zero.withSign true)) :=
    holdsNumber_of_only (toList_onlyIdentifier _) place_onlyIdentifier hspelled hnumber
  have htext : (Number.double (Binary64.zero.withSign true)).text = "-0.0" := by decide +kernel
  obtain ⟨hread, m, hagain, -, hresembles⟩ := numeric_resubmission hbody
  rw [htext] at hread hagain
  cases hresembles with
  | double _ _ hzero =>
    rw [hzero rfl] at hagain
    exact ⟨hbody, hread, hagain⟩

end Login

end LoginService
