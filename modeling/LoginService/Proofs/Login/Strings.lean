import LoginService.Proofs.Json.Literal
import LoginService.Proofs.Login.Outcome
import LoginService.Proofs.Login.Place

/-!
# String identifiers

A string identifier is submitted as the string that its literal spells, whichever way each character
is written. In a body that is accepted, what follows an opening quotation mark begins with the rest
of a literal of exactly one string. A flawed literal makes the body malformed, wherever it stands.
-/

namespace LoginService.Login

open Json

variable {text : String} {front literal back rest : List Char} {fill : Value → Value} {s : String}

/-- A string in a place of the last `requestId` is what the body submits, if it submits anything. -/
theorem submits_iff_of_place (htext : text.toList = front ++ literal ++ back)
    (hspelled : Quoted.SpelledBy s literal) (hplace : Value.Place fill front back)
    (hdesignates : Designates fill) {found : String} :
    Submits (Utf8.encode text) found ↔
      (Utf8.encode text).length ≤ bodyLimit ∧ found = s ∧ ∃ w, (fill (.string s)).Resolves w := by
  rw [submits_iff,
    identifier_eq_ok_iff_of_place htext hplace hdesignates (.string hspelled) (.string s)]

/-- A body that is not valid UTF-8 is malformed. -/
theorem malformed_of_encode_ne {body : Bytes} (h : ∀ s, Utf8.encode s ≠ body) : Malformed body := by
  rw [malformed_iff]
  rintro ⟨found, hread⟩
  obtain ⟨v, -, ⟨s, hs, -⟩, -⟩ := identifier_eq_ok_iff.mp hread
  exact h s hs

/-- A body with a flawed literal where a token may begin is malformed. -/
theorem malformed_of_flawed (htext : text.toList = front ++ '"' :: rest) (hfront : Cut front)
    (hflawed : Quoted.Flawed rest) : Malformed (Utf8.encode text) := by
  rw [malformed_iff]
  rintro ⟨found, hread⟩
  obtain ⟨v, -, hv, -⟩ := identifier_eq_ok_iff.mp hread
  rw [Value.encodedBy_encode, htext] at hv
  exact hfront.not_writtenBy hflawed v hv

/-- What the string literals of a body make of it. -/
structure StringsIdentify (body : Bytes) : Prop where
  /-- A string that is the `requestId` and the only member of a body is submitted, however it is
  spelled, unless the body is too long. -/
  only : ∀ (s text : String) (front literal back : List Char), Utf8.encode text = body →
    text.toList = front ++ literal ++ back → Quoted.SpelledBy s literal →
      Value.Place (fun v => .object [(identifierName, v)]) front back →
        body.length ≤ bodyLimit → Submits body s
  /-- A string that is the last `requestId` of a larger body is what that body submits, if it stands
  for anything. -/
  last : ∀ (s text found : String) (front literal back : List Char) (fill : Value → Value),
    Utf8.encode text = body → text.toList = front ++ literal ++ back →
      Quoted.SpelledBy s literal → Value.Place fill front back → Designates fill →
        (Submits body found ↔
          body.length ≤ bodyLimit ∧ found = s ∧ ∃ w, (fill (.string s)).Resolves w)
  /-- Where a body that is read has an opening quotation mark, a literal begins there, and it spells
  exactly one string. -/
  begins : ∀ (text found : String) (front rest : List Char), Utf8.encode text = body →
    text.toList = front ++ '"' :: rest → Cut front → identifier body = .ok found →
      ∃! s, ∃ literal back, Quoted.SpelledBy s literal ∧ '"' :: rest = literal ++ back
  /-- A flawed literal makes the body malformed, wherever a token may begin. -/
  flawed : ∀ (text : String) (front rest : List Char), Utf8.encode text = body →
    text.toList = front ++ '"' :: rest → Cut front → Quoted.Flawed rest → Malformed body
  /-- So do bytes between two quotation marks that are not valid UTF-8. -/
  undecodable : ∀ front contents back : Bytes, body = front ++ 0x22 :: (contents ++ 0x22 :: back) →
    (∀ s, Utf8.encode s ≠ contents) → Malformed body

/-- A string is submitted whichever way it is spelled, and a body with anything else between
quotation marks is malformed. -/
theorem string_identifiers (body : Bytes) : StringsIdentify body := by
  constructor
  · rintro s text front literal back rfl htext hspelled hplace hlength
    exact submits_iff.mpr ⟨hlength, identifier_of_only htext hplace (.string hspelled) (.string s)⟩
  · rintro s text found front literal back fill rfl htext hspelled hplace hdesignates
    exact submits_iff_of_place htext hspelled hplace hdesignates
  · rintro text found front rest rfl htext hfront hread
    apply Quoted.existsUnique_spelledBy
    intro hflawed
    exact malformed_iff.mp (malformed_of_flawed htext hfront hflawed) ⟨found, hread⟩
  · rintro text front rest rfl htext hfront hflawed
    exact malformed_of_flawed htext hfront hflawed
  · rintro front contents back rfl hcontents
    refine malformed_of_encode_ne fun s hs => ?_
    obtain ⟨t, ht⟩ := Utf8.exists_encode_of_between (by decide) (by decide) hs
    exact hcontents t ht

/-- A letter by its code unit, a line feed by its short escape and a character beyond U+FFFF by a
surrogate pair are submitted. A first half alone, in an array, and the byte 0xFF are rejected. -/
theorem string_identifiers_mixed :
    Submits (Utf8.encode (onlyIdentifier "\"\\u0041\\n\\ud83d\\uDE00\"".toList)) "A\n😀" ∧
      (∃ w, (Value.object [(identifierName, .string "A\n😀")]).Resolves w) ∧
      (∃! s, ∃ literal back, Quoted.SpelledBy s literal ∧
        "\"requestId\":\"\\u0041\\n\\ud83d\\uDE00\"\x7d".toList = literal ++ back) ∧
      Malformed (Utf8.encode "\x7b\"a\":[\"\\uD83D\"]\x7d") ∧
      Malformed (Utf8.encode "\x7b" ++ 0x22 :: ([0xFF] ++ 0x22 :: Utf8.encode ":1\x7d")) := by
  have hletter : Quoted.UnitSpelledBy 'A'.toNat ['0', '0', '4', '1'] :=
    .mk (i := 0) (j := 0) (k := 4) (l := 1) (by decide) (by decide) (by decide) (by decide) rfl
  have hhigh : Quoted.UnitSpelledBy 0xD83D ['d', '8', '3', 'd'] :=
    .mk (i := 13) (j := 8) (k := 3) (l := 13) (by decide) (by decide) (by decide) (by decide) rfl
  have hlow : Quoted.UnitSpelledBy 0xDE00 ['D', 'E', '0', '0'] :=
    .mk (i := 13) (j := 14) (k := 0) (l := 0) (by decide) (by decide) (by decide) (by decide) rfl
  have hfeed : ('n', '\n') ∈ Quoted.shortEscapes := by decide
  have hchars : Quoted.CharsSpelledBy "A\n😀".toList "\\u0041\\n\\ud83d\\uDE00".toList :=
    .cons (.unit hletter) (.cons (.short hfeed)
      (.cons (.surrogates (by decide) (by decide) (by decide) hhigh hlow) .nil))
  have hspelled : Quoted.SpelledBy "A\n😀" "\"\\u0041\\n\\ud83d\\uDE00\"".toList := .mk hchars
  have hcut : Cut "\x7b".toList := .token blanks_nil .openBrace (by simp) (.blanks blanks_nil)
  have hname : Quoted.SpelledBy "a" "\"a\"".toList := Quoted.spelledBy_literal "a"
  have harray : Cut "\x7b\"a\":[".toList :=
    .token blanks_nil .openBrace (by simp) (.token blanks_nil (.string hname) (by simp)
      (.token blanks_nil .colon (by simp) (.token blanks_nil .openBracket (by simp)
        (.blanks blanks_nil))))
  have halone : Quoted.UnitSpelledBy 0xD83D ['D', '8', '3', 'D'] :=
    .mk (i := 13) (j := 8) (k := 3) (l := 13) (by decide) (by decide) (by decide) (by decide) rfl
  have hflawed : Quoted.Flawed
      ([] ++ '\\' :: 'u' :: (['D', '8', '3', 'D'] ++ ['"', ']', '\x7d'])) :=
    .mk .nil (.high (by decide) halone (by simp))
  have hsubmits := (string_identifiers _).only _ _ _ _ _ rfl (toList_onlyIdentifier _) hspelled
    place_onlyIdentifier (by decide)
  obtain ⟨-, -, hresolves⟩ := ((string_identifiers _).last _ _ _ _ _ _ _ rfl
    (toList_onlyIdentifier _) hspelled place_onlyIdentifier designates_only).mp hsubmits
  refine ⟨hsubmits, hresolves, ?_, ?_, ?_⟩
  · exact (string_identifiers _).begins _ _ _ _ rfl (toList_onlyIdentifier _) hcut
      (submits_iff.mp hsubmits).2
  · exact (string_identifiers _).flawed _ _ _ rfl rfl harray hflawed
  · have hnone : Utf8.decode? [0xFF] = none := by decide
    refine (string_identifiers _).undecodable _ _ _ rfl fun s hs => ?_
    cases hnone.symm.trans (Utf8.decode?_eq_some_iff.mpr hs)

end LoginService.Login
