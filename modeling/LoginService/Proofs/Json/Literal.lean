import LoginService.Proofs.Json.Place

/-!
# String literals and their flaws

What follows a quotation mark either begins with the rest of exactly one string literal, or it is
flawed: after some characters of a string comes something that no string contains. The flaws are
given by what is written, one by one. Where a token begins, a flawed literal spoils the whole text,
whatever stands before and behind it.
-/

namespace LoginService.Json

open Numeral (Lengthens)

namespace Quoted

/-- A hexadecimal digit of either case. -/
def IsHex (c : Char) : Prop :=
  ∃ n, HexDigit n c

/-- A text does not go on with a character of a string, nor with the end of the string. -/
inductive Spoiled : List Char → Prop where
  /-- The text ends here. -/
  | ended : Spoiled []
  /-- The text ends after a backslash. -/
  | cutOff : Spoiled ['\\']
  /-- A control character below U+0020 stands there as it is. -/
  | control {c : Char} {rest : List Char} (h : c.toNat < 0x20) : Spoiled (c :: rest)
  /-- What follows the backslash begins no escape. -/
  | unknown {letter : Char} {rest : List Char} (hunit : letter ≠ 'u')
      (hshort : ∀ c, (letter, c) ∉ shortEscapes) : Spoiled ('\\' :: letter :: rest)
  /-- Fewer than four hexadecimal digits follow. -/
  | digits {digits rest : List Char} (hdigits : ∀ c ∈ digits, IsHex c) (hfew : digits.length < 4)
      (hrest : NotAhead IsHex rest) : Spoiled ('\\' :: 'u' :: (digits ++ rest))
  /-- The first half of a surrogate pair is not followed by an escape of a second half. -/
  | high {high : Nat} {digits rest : List Char} (hhigh : 0xD800 ≤ high ∧ high ≤ 0xDBFF)
      (hdigits : UnitSpelledBy high digits)
      (hrest : ∀ low second tail, 0xDC00 ≤ low ∧ low ≤ 0xDFFF → UnitSpelledBy low second →
        rest ≠ '\\' :: 'u' :: (second ++ tail)) : Spoiled ('\\' :: 'u' :: (digits ++ rest))
  /-- The second half of a surrogate pair stands without a first half. -/
  | low {low : Nat} {digits rest : List Char} (hlow : 0xDC00 ≤ low ∧ low ≤ 0xDFFF)
      (hdigits : UnitSpelledBy low digits) : Spoiled ('\\' :: 'u' :: (digits ++ rest))

/-- What follows an opening quotation mark goes on with characters of a string and is spoiled
then. -/
inductive Flawed : List Char → Prop where
  | mk {cs text rest : List Char} (htext : CharsSpelledBy cs text) (hrest : Spoiled rest) :
      Flawed (text ++ rest)

/-- The reader finds a value for the hexadecimal digits only. -/
theorem isSome_hexValue?_iff {c : Char} : (hexValue? c).isSome ↔ IsHex c := by
  rw [Option.isSome_iff_exists]
  exact exists_congr fun n => ⟨hexDigit_of_hexValue?, HexDigit.hexValue?⟩

/-- Four hexadecimal digits spell a code unit. -/
theorem exists_unitSpelledBy {a b c d : Char} (ha : IsHex a) (hb : IsHex b) (hc : IsHex c)
    (hd : IsHex d) : ∃ unit, UnitSpelledBy unit [a, b, c, d] := by
  obtain ⟨i, hi⟩ := ha
  obtain ⟨j, hj⟩ := hb
  obtain ⟨k, hk⟩ := hc
  obtain ⟨l, hl⟩ := hd
  exact ⟨_, .mk hi hj hk hl rfl⟩

/-- A code unit is spelled by four hexadecimal digits. -/
theorem UnitSpelledBy.isHex {unit : Nat} {text : List Char} (h : UnitSpelledBy unit text) :
    text.length = 4 ∧ ∀ c ∈ text, IsHex c := by
  cases h with
  | mk ha hb hc hd =>
    refine ⟨rfl, ?_⟩
    simp only [List.forall_mem_cons, List.not_mem_nil, false_imp_iff, implies_true, and_true]
    exact ⟨⟨_, ha⟩, ⟨_, hb⟩, ⟨_, hc⟩, ⟨_, hd⟩⟩

/-- Where fewer than four hexadecimal digits stand, no code unit is read. -/
theorem codeUnit?_eq_none_of_few {digits rest : List Char} (hfew : digits.length < 4)
    (hrest : NotAhead IsHex rest) : codeUnit? (digits ++ rest) = none := by
  rw [Option.eq_none_iff_forall_ne_some]
  rintro ⟨unit, tail⟩ hread
  obtain ⟨part, hpart, heq⟩ := spelledBy_of_codeUnit? hread
  obtain ⟨hlength, hhex⟩ := hpart.isHex
  rcases List.append_eq_append_iff.mp heq with ⟨more, rfl, rfl⟩ | ⟨more, rfl, -⟩
  · cases more with
    | nil =>
      rw [List.append_nil] at hlength
      omega
    | cons c more => exact hrest c rfl (hhex c (by simp))
  · rw [List.length_append] at hfew
    omega

/-- Where no code unit is read, fewer than four hexadecimal digits stand. -/
theorem exists_few_of_codeUnit? {text : List Char} (h : codeUnit? text = none) :
    ∃ digits rest, text = digits ++ rest ∧ (∀ c ∈ digits, IsHex c) ∧ digits.length < 4 ∧
      NotAhead IsHex rest := by
  obtain ⟨digits, rest, hcut⟩ : ∃ digits rest, text.takeWhile (hexValue? · |>.isSome) = digits ∧
      text.dropWhile (hexValue? · |>.isSome) = rest := ⟨_, _, rfl, rfl⟩
  obtain ⟨hdigits, rfl, hrest⟩ := cut_eq_iff.mp hcut
  simp only [isSome_hexValue?_iff] at hdigits hrest
  refine ⟨digits, rest, rfl, hdigits, ?_, hrest⟩
  by_contra hmany
  match digits, hmany with
  | a :: b :: c :: d :: more, _ =>
    simp only [List.forall_mem_cons] at hdigits
    obtain ⟨ha, hb, hc, hd, -⟩ := hdigits
    obtain ⟨unit, hunit⟩ := exists_unitSpelledBy ha hb hc hd
    have hread : codeUnit? ([a, b, c, d] ++ (more ++ rest)) = some (unit, more ++ rest) :=
      hunit.codeUnit?
    cases h.symm.trans hread
  | [], hmany | [_], hmany | [_, _], hmany | [_, _, _], hmany => simp at hmany

/-- Where the text is spoiled, no character is read. -/
theorem Spoiled.character? {text : List Char} (h : Spoiled text) : character? text = none := by
  cases h with
  | ended | cutOff => rfl
  | @control c rest h =>
    have hbackslash : c ≠ '\\' := by
      rintro rfl
      exact absurd h (by decide)
    rw [character?_cons hbackslash, if_pos (.inr h)]
  | @unknown letter rest hunit hshort =>
    have hletter : shortEscape? letter = none := by
      rw [Option.eq_none_iff_forall_ne_some]
      exact fun c hc => hshort c (mem_shortEscapes hc)
    change escape? (letter :: rest) = none
    rw [escape?_cons hunit, hletter, Option.map_none]
  | @digits digits rest hdigits hfew hrest =>
    change unicodeEscape? (digits ++ rest) = none
    rw [unicodeEscape?, codeUnit?_eq_none_of_few hfew hrest]
    rfl
  | @high high digits rest hhigh hdigits hrest =>
    have hlow : lowSurrogate? rest = none := by
      rw [Option.eq_none_iff_forall_ne_some]
      rintro ⟨low, tail⟩ hread
      obtain ⟨hlow, second, hsecond, heq⟩ := spelledBy_of_lowSurrogate? hread
      exact hrest low second tail hlow hsecond heq
    have hnotLow : ¬(0xDC00 ≤ high ∧ high ≤ 0xDFFF) := by omega
    change unicodeEscape? (digits ++ rest) = none
    simp [unicodeEscape?, hdigits.codeUnit?, isLowSurrogate, isHighSurrogate, hnotLow, hhigh, hlow]
  | @low low digits rest hlow hdigits =>
    change unicodeEscape? (digits ++ rest) = none
    simp [unicodeEscape?, hdigits.codeUnit?, isLowSurrogate, hlow]

/-- No quotation mark stands where the text is spoiled. -/
theorem Spoiled.ne_quote {text : List Char} (h : Spoiled text) (rest : List Char) :
    text ≠ '"' :: rest := by
  rintro rfl
  cases h with
  | control h => exact absurd h (by decide)

/-- Where an escape by code units is not read, the text is spoiled. -/
theorem spoiled_of_unicodeEscape? {text : List Char} (h : unicodeEscape? text = none) :
    Spoiled ('\\' :: 'u' :: text) := by
  rw [unicodeEscape?] at h
  cases hunit : codeUnit? text with
  | none =>
    obtain ⟨digits, rest, rfl, hdigits, hfew, hrest⟩ := exists_few_of_codeUnit? hunit
    exact .digits hdigits hfew hrest
  | some found =>
    obtain ⟨unit, rest⟩ := found
    obtain ⟨digits, hdigits, rfl⟩ := spelledBy_of_codeUnit? hunit
    simp only [hunit, Option.bind_eq_bind, Option.bind_some, isLowSurrogate, isHighSurrogate,
      decide_eq_true_eq] at h
    split at h
    · next hlow => exact .low hlow hdigits
    split at h
    · next hhigh =>
      refine .high hhigh hdigits fun low second tail hlow hsecond heq => ?_
      have hread : lowSurrogate? rest = some (low, tail) := by
        rw [heq, lowSurrogate?, hsecond.codeUnit?]
        simp [isLowSurrogate, hlow]
      rw [hread] at h
      cases h
    · cases h

/-- Where no character is read and no quotation mark stands, the text is spoiled. -/
theorem spoiled_of_character? {text : List Char} (h : character? text = none)
    (hquote : ∀ rest, text ≠ '"' :: rest) : Spoiled text := by
  unfold Quoted.character? at h
  split at h
  · exact .ended
  · unfold escape? at h
    split at h
    · exact .cutOff
    · exact spoiled_of_unicodeEscape? h
    · next letter rest hunit =>
      have hletter : shortEscape? letter = none := Option.map_eq_none_iff.mp h
      refine .unknown (fun heq => hunit (heq ▸ rfl)) fun c hc => ?_
      rw [(shortEscape?_of_mem hc).2] at hletter
      cases hletter
  · next c rest _ =>
    split at h
    · next hplain =>
      rcases hplain with rfl | hcontrol
      · exact absurd rfl (hquote rest)
      · exact .control hcontrol
    · cases h

/-- No string is read if and only if the text is flawed. -/
theorem closing?_eq_none_iff {before text : List Char} :
    closing? before text = none ↔ Flawed text := by
  constructor
  · intro h
    fun_induction closing? before text with
    | case1 => cases h
    | case2 before text hopen hread => exact .mk .nil (spoiled_of_character? hread hopen)
    | case3 before text hopen c rest hread ih =>
      obtain ⟨part, hpart, rfl⟩ := spelledBy_of_character? hread
      obtain ⟨hgood, hrest⟩ := ih h
      rw [← List.append_assoc]
      exact .mk (.cons hpart hgood) hrest
  · rintro ⟨htext, hrest⟩
    induction htext generalizing before with
    | nil =>
      rw [List.nil_append, closing?.eq_def]
      split
      · next rest => exact absurd rfl (hrest.ne_quote rest)
      · split
        · rfl
        · next hsome =>
          rw [hrest.character?] at hsome
          cases hsome
    | cons hc hcs ih =>
      rw [List.append_assoc, closing?_of_character? (hc.append_ne_quote _) hc.character?, ih]

/-- A literal in front of a text is read as the string that it spells. -/
theorem SpelledBy.contents? {s : String} {literal text back : List Char} (h : SpelledBy s literal)
    (htext : '"' :: text = literal ++ back) : contents? text = some (s.toList, back) := by
  obtain ⟨hchars⟩ := h
  refine contents?_eq_some_iff.mpr ⟨_, hchars, ?_⟩
  simpa using htext

/-- What follows a quotation mark and is not flawed begins with the rest of a string literal, and it
does so in one way. -/
theorem existsUnique_spelledBy {text : List Char} (h : ¬Flawed text) :
    ∃! s, ∃ literal back, SpelledBy s literal ∧ '"' :: text = literal ++ back := by
  obtain ⟨⟨cs, back⟩, hfound⟩ := Option.ne_none_iff_exists'.mp (mt closing?_eq_none_iff.mp h)
  obtain ⟨part, hpart, rfl⟩ := contents?_eq_some_iff.mp hfound
  have hspelled : SpelledBy (String.ofList cs) ('"' :: (part ++ ['"'])) :=
    .mk (by rwa [String.toList_ofList])
  refine ⟨String.ofList cs, ⟨_, back, hspelled, by simp⟩, ?_⟩
  rintro s ⟨literal, rest, hs, htext⟩
  obtain ⟨rfl, -⟩ := Prod.mk.inj (Option.some.inj ((hs.contents? htext).symm.trans hfound))
  exact String.ofList_toList.symm

end Quoted

/-- A text ends where a token may begin: it is made of tokens with blanks before, between and after
them, and no numeral runs into what comes next. -/
inductive Cut : List Char → Prop where
  | blanks {blanks : List Char} (h : Blanks blanks) : Cut blanks
  | token {t : Token} {before text rest : List Char} (hbefore : Blanks before)
      (ht : t.SpelledBy text) (hnumber : ∀ n, t = .number n → NotAhead Lengthens rest)
      (hrest : Cut rest) :
      Cut (before ++ text ++ rest)

namespace Cut

variable {front rest text : List Char}

/-- A cut text is scanned into tokens. -/
theorem scan? (h : Cut front) (hrest : NotAhead Lengthens rest) :
    ∃ tokens, ∀ done, Token.scan? done (front ++ rest) = Token.scan? (tokens ++ done) rest := by
  induction h with
  | blanks h => exact ⟨[], fun done => Token.scan?_blanks h done rest⟩
  | @token t before text front hbefore ht hnumber _ ih =>
    obtain ⟨tokens, htokens⟩ := ih
    refine ⟨tokens ++ [t], fun done => ?_⟩
    have hahead : ∀ n, t = .number n → NotAhead Lengthens (front ++ rest) :=
      fun n hn => (hnumber n hn).append hrest
    rw [List.append_assoc, List.append_assoc, Token.scan?_blanks hbefore, ht.scan? hahead, htokens,
      List.append_assoc]
    rfl

/-- A flawed literal where a token may begin spoils the text. -/
theorem not_writtenBy (h : Cut front) (hflawed : Quoted.Flawed text) (v : Value) :
    ¬v.WrittenBy (front ++ '"' :: text) := by
  have hquote : NotAhead Lengthens ('"' :: text) := by simp [Lengthens]
  obtain ⟨tokens, htokens⟩ := h.scan? hquote
  have hread : Token.read? ('"' :: text) = none :=
    Option.map_eq_none_iff.mpr (Quoted.closing?_eq_none_iff.mpr hflawed)
  refine Value.not_writtenBy_of_scan? ?_ v
  rw [htokens, Token.scan?_eq_none_of_read? (by decide) hread]

end Cut

end LoginService.Json
