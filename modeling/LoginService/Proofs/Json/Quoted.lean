import LoginService.Json.Quoted
import LoginService.Proofs.Json.Grammar
import LoginService.Proofs.Utf8
import Mathlib.Tactic.IntervalCases

/-!
# Reading and writing strings

The reader of string literals accepts every spelling of a character and nothing else, and what the
writer produces is such a spelling.
-/

namespace LoginService.Json.Quoted

/-- A character that is read as a hexadecimal digit is one. -/
theorem hexDigit_of_hexValue? {c : Char} {n : Nat} (h : hexValue? c = some n) : HexDigit n c := by
  have hc : ∀ {k}, c.toNat = k → c = Char.ofNat k := by
    rintro k rfl
    exact (Char.ofNat_toNat c).symm
  simp only [hexValue?, Char.le_def, UInt32.le_iff_toNat_le, Char.toNat_val, Char.reduceToNat] at h
  split at h
  · have hn : c.toNat = 48 + n := by
      simp only [Option.some.injEq] at h
      omega
    have hlt : n < 10 := by omega
    interval_cases n <;> rw [hc hn] <;> decide
  split at h
  · have hn : c.toNat = 87 + n := by
      simp only [Option.some.injEq] at h
      omega
    have hlow : 10 ≤ n := by omega
    have hhigh : n < 16 := by omega
    interval_cases n <;> rw [hc hn] <;> decide
  split at h
  · have hn : c.toNat = 55 + n := by
      simp only [Option.some.injEq] at h
      omega
    have hlow : 10 ≤ n := by omega
    have hhigh : n < 16 := by omega
    interval_cases n <;> rw [hc hn] <;> decide
  · cases h

/-- A hexadecimal digit is less than sixteen. -/
theorem HexDigit.lt {n : Nat} {c : Char} (h : HexDigit n c) : n < 16 := by
  rcases h with h | h
  · exact (List.getElem?_eq_some_iff.mp h).1
  · exact (List.getElem?_eq_some_iff.mp h).1

/-- A hexadecimal digit is read. -/
theorem HexDigit.hexValue? {n : Nat} {c : Char} (h : HexDigit n c) : hexValue? c = some n := by
  have hlt := h.lt
  unfold HexDigit at h
  interval_cases n <;> rcases h with h | h <;> cases h <;> rfl

/-- A code unit that is read is spelled by a part of the text. -/
theorem spelledBy_of_codeUnit? {text rest : List Char} {unit : Nat}
    (h : codeUnit? text = some (unit, rest)) :
    ∃ part, UnitSpelledBy unit part ∧ text = part ++ rest := by
  unfold codeUnit? at h
  split at h
  · simp only [Option.bind_eq_bind, Option.bind_eq_some_iff, Option.pure_def, Option.some.injEq,
      Prod.mk.injEq] at h
    obtain ⟨i, hi, j, hj, k, hk, l, hl, rfl, rfl⟩ := h
    exact ⟨_, .mk (hexDigit_of_hexValue? hi) (hexDigit_of_hexValue? hj) (hexDigit_of_hexValue? hk)
      (hexDigit_of_hexValue? hl) (by omega), rfl⟩
  · cases h

/-- A code unit that is spelled is read. -/
theorem UnitSpelledBy.codeUnit? {text rest : List Char} {unit : Nat} (h : UnitSpelledBy unit text) :
    codeUnit? (text ++ rest) = some (unit, rest) := by
  cases h with
  | @mk i j k l a b c d ha hb hc hd hunit =>
    have hsame : ((i * 16 + j) * 16 + k) * 16 + l = unit := by omega
    simp only [List.cons_append, List.nil_append, Quoted.codeUnit?, ha.hexValue?, hb.hexValue?,
      hc.hexValue?, hd.hexValue?, Option.bind_eq_bind, Option.bind_some, Option.pure_def, hsame]

/-- A code unit has 16 bits. -/
theorem UnitSpelledBy.lt {text : List Char} {unit : Nat} (h : UnitSpelledBy unit text) :
    unit < 0x10000 := by
  cases h with
  | mk ha hb hc hd hunit =>
    have := ha.lt
    have := hb.lt
    have := hc.lt
    have := hd.lt
    omega

/-- A short escape that is read is one of the table. -/
theorem mem_shortEscapes {letter c : Char} (h : shortEscape? letter = some c) :
    (letter, c) ∈ shortEscapes := by
  unfold shortEscape? at h
  split at h <;> cases h <;> decide

/-- A short escape of the table is read, and it does not begin like an escape by a code unit. -/
theorem shortEscape?_of_mem {letter c : Char} (h : (letter, c) ∈ shortEscapes) :
    letter ≠ 'u' ∧ shortEscape? letter = some c := by
  simp only [shortEscapes, List.mem_cons, Prod.mk.injEq, List.not_mem_nil, or_false] at h
  rcases h with ⟨rfl, rfl⟩ | ⟨rfl, rfl⟩ | ⟨rfl, rfl⟩ | ⟨rfl, rfl⟩ | ⟨rfl, rfl⟩ | ⟨rfl, rfl⟩ |
    ⟨rfl, rfl⟩ | ⟨rfl, rfl⟩ <;> decide

/-- The second half of a surrogate pair that is read is an escape of its own. -/
theorem spelledBy_of_lowSurrogate? {text rest : List Char} {low : Nat}
    (h : lowSurrogate? text = some (low, rest)) :
    (0xDC00 ≤ low ∧ low ≤ 0xDFFF) ∧
      ∃ part, UnitSpelledBy low part ∧ text = '\\' :: 'u' :: (part ++ rest) := by
  unfold lowSurrogate? at h
  split at h
  · obtain ⟨hunit, hlow⟩ := Option.filter_eq_some_iff.mp h
    obtain ⟨part, hpart, rfl⟩ := spelledBy_of_codeUnit? hunit
    exact ⟨of_decide_eq_true hlow, part, hpart, rfl⟩
  · cases h

/-- An escape by code units that is read is a spelling of the character. -/
theorem spelledBy_of_unicodeEscape? {text rest : List Char} {c : Char}
    (h : unicodeEscape? text = some (c, rest)) :
    ∃ part, CharSpelledBy c ('\\' :: 'u' :: part) ∧ text = part ++ rest := by
  simp only [unicodeEscape?, Option.bind_eq_bind, Option.bind_eq_some_iff] at h
  obtain ⟨⟨unit, afterUnit⟩, hunit, h⟩ := h
  obtain ⟨first, hfirst, rfl⟩ := spelledBy_of_codeUnit? hunit
  have hbits := hfirst.lt
  simp only [isLowSurrogate, isHighSurrogate, decide_eq_true_eq] at h
  split at h
  · cases h
  · split at h
    · next hhigh =>
      obtain ⟨⟨low, afterLow⟩, hlow, hpair⟩ := Option.bind_eq_some_iff.mp h
      obtain ⟨rfl, rfl⟩ := Prod.mk.inj (Option.some.inj hpair)
      obtain ⟨hrange, second, hsecond, rfl⟩ := spelledBy_of_lowSurrogate? hlow
      refine ⟨_, .surrogates hhigh hrange ?_ hfirst hsecond, by simp⟩
      rw [ofSurrogates, Utf8.toNat_ofNat]
      unfold Nat.isValidChar
      omega
    · obtain ⟨rfl, rfl⟩ := Prod.mk.inj (Option.some.inj h)
      have hvalid : unit.isValidChar := by
        unfold Nat.isValidChar
        omega
      refine ⟨first, .unit ?_, rfl⟩
      rwa [Utf8.toNat_ofNat hvalid]

/-- A character that is read is spelled by a part of the text. -/
theorem spelledBy_of_character? {text rest : List Char} {c : Char}
    (h : character? text = some (c, rest)) :
    ∃ part, CharSpelledBy c part ∧ text = part ++ rest := by
  unfold character? at h
  split at h
  · cases h
  · unfold escape? at h
    split at h
    · cases h
    · obtain ⟨part, hpart, rfl⟩ := spelledBy_of_unicodeEscape? h
      exact ⟨_, hpart, rfl⟩
    · next letter tail _ =>
      obtain ⟨d, hshort, hpair⟩ := Option.map_eq_some_iff.mp h
      obtain ⟨rfl, rfl⟩ := Prod.mk.inj hpair
      exact ⟨['\\', letter], .short (mem_shortEscapes hshort), rfl⟩
  · next d tail hbackslash =>
    split at h
    · cases h
    · next hplain =>
      obtain ⟨rfl, rfl⟩ := Prod.mk.inj (Option.some.inj h)
      rw [not_or, Char.not_lt, Char.le_def, UInt32.le_iff_toNat_le] at hplain
      exact ⟨[d], .raw hplain.1 hbackslash hplain.2, rfl⟩

/-- A code unit that is the whole of a character is no half of a surrogate pair. -/
theorem not_surrogate (c : Char) :
    isLowSurrogate c.toNat = false ∧ isHighSurrogate c.toNat = false := by
  have hvalid : c.toNat < 0xD800 ∨ 0xDFFF < c.toNat ∧ c.toNat < 0x110000 := c.valid
  simp only [isLowSurrogate, isHighSurrogate, decide_eq_false_iff_not]
  omega

/-- A character that begins no escape is read as itself, if it may stand for itself. -/
theorem character?_cons {c : Char} (hbackslash : c ≠ '\\') (rest : List Char) :
    character? (c :: rest) = if c = '"' ∨ c < ' ' then none else some (c, rest) := by
  unfold Quoted.character?
  split
  · next heq => cases heq
  · next heq => exact absurd (List.cons.inj heq).1 hbackslash
  · next heq =>
    obtain ⟨rfl, rfl⟩ := List.cons.inj heq
    rfl

/-- What begins no escape by code units is looked up as a short escape. -/
theorem escape?_cons {letter : Char} (hunit : letter ≠ 'u') (rest : List Char) :
    escape? (letter :: rest) = (shortEscape? letter).map (·, rest) := by
  unfold escape?
  split
  · next heq => cases heq
  · next heq => exact absurd (List.cons.inj heq).1 hunit
  · next heq =>
    obtain ⟨rfl, rfl⟩ := List.cons.inj heq
    rfl

/-- A character that is spelled is read. -/
theorem CharSpelledBy.character? {c : Char} {text rest : List Char} (h : CharSpelledBy c text) :
    character? (text ++ rest) = some (c, rest) := by
  cases h with
  | raw hquote hbackslash hcontrol =>
    have hplain : ¬(c = '"' ∨ c < ' ') := by
      rw [not_or, Char.not_lt, Char.le_def, UInt32.le_iff_toNat_le]
      exact ⟨hquote, hcontrol⟩
    rw [List.singleton_append, character?_cons hbackslash, if_neg hplain]
  | @short letter h =>
    obtain ⟨hunit, hshort⟩ := shortEscape?_of_mem h
    change escape? (letter :: rest) = some (c, rest)
    rw [escape?_cons hunit, hshort, Option.map_some]
  | @unit digits h =>
    obtain ⟨hlow, hhigh⟩ := not_surrogate c
    change unicodeEscape? (digits ++ rest) = some (c, rest)
    simp only [unicodeEscape?, h.codeUnit?, Option.bind_eq_bind, Option.bind_some, hlow, hhigh,
      Bool.false_eq_true, if_false, Char.ofNat_toNat, Option.pure_def]
  | @surrogates high low first second hhigh hlow hc hfirst hsecond =>
    have hnotLow : isLowSurrogate high = false := by
      simp only [isLowSurrogate, decide_eq_false_iff_not]
      omega
    have hread : lowSurrogate? ('\\' :: 'u' :: (second ++ rest)) = some (low, rest) := by
      rw [lowSurrogate?, hsecond.codeUnit?]
      simp [isLowSurrogate, hlow]
    have hchar : ofSurrogates high low = c := by
      rw [ofSurrogates, ← hc, Char.ofNat_toNat]
    change unicodeEscape? (first ++ '\\' :: 'u' :: second ++ rest) = some (c, rest)
    rw [List.append_assoc]
    simp only [unicodeEscape?, hfirst.codeUnit?, Option.bind_eq_bind, Option.bind_some, hnotLow,
      Bool.false_eq_true, if_false, List.cons_append, hread, isHighSurrogate, hhigh, and_self,
      decide_true, if_true, hchar, Option.pure_def]

/-- No spelling of a character begins with a quotation mark. -/
theorem CharSpelledBy.exists_cons {c : Char} {text : List Char} (h : CharSpelledBy c text) :
    ∃ first more, text = first :: more ∧ first ≠ '"' := by
  cases h with
  | raw hquote => exact ⟨c, [], rfl, hquote⟩
  | short => exact ⟨'\\', _, rfl, by decide⟩
  | unit => exact ⟨'\\', _, rfl, by decide⟩
  | surrogates => exact ⟨'\\', _, rfl, by decide⟩

/-- No text that begins with a character of a string begins with a quotation mark. -/
theorem CharSpelledBy.append_ne_quote {c : Char} {text : List Char} (h : CharSpelledBy c text)
    (rest tail : List Char) : text ++ rest ≠ '"' :: tail := by
  obtain ⟨first, more, rfl, hfirst⟩ := h.exists_cons
  exact fun heq => hfirst (List.cons.inj heq).1

/-- Characters that are read up to the closing quotation mark are spelled by a part of the text. -/
theorem spelledBy_of_closing? {before text found rest : List Char}
    (h : closing? before text = some (found, rest)) :
    ∃ cs part, CharsSpelledBy cs part ∧ found = before.reverse ++ cs ∧
      text = part ++ '"' :: rest := by
  fun_induction closing? before text with
  | case1 before rest =>
    obtain ⟨rfl, rfl⟩ := Prod.mk.inj (Option.some.inj h)
    exact ⟨[], [], .nil, by simp, rfl⟩
  | case2 => cases h
  | case3 before text hopen c tail hread ih =>
    obtain ⟨part, hpart, rfl⟩ := spelledBy_of_character? hread
    obtain ⟨cs, more, hmore, rfl, rfl⟩ := ih h
    exact ⟨c :: cs, part ++ more, .cons hpart hmore, by simp, by simp⟩

/-- A character that is no quotation mark is put with those before it. -/
theorem closing?_of_character? {before text rest : List Char} {c : Char}
    (hquote : ∀ tail, text ≠ '"' :: tail) (h : character? text = some (c, rest)) :
    closing? before text = closing? (c :: before) rest := by
  rw [closing?.eq_def]
  split
  · next tail => exact absurd rfl (hquote tail)
  · split
    · next hnone =>
      rw [h] at hnone
      cases hnone
    · next hsome =>
      rw [h] at hsome
      cases hsome
      rfl

/-- Characters that are spelled are read up to the closing quotation mark. -/
theorem CharsSpelledBy.closing? {cs text rest : List Char} (h : CharsSpelledBy cs text)
    (before : List Char) :
    closing? before (text ++ '"' :: rest) = some (before.reverse ++ cs, rest) := by
  induction h generalizing before with
  | nil => rw [List.nil_append, Quoted.closing?, List.append_nil]
  | @cons c cs text more hc hcs ih =>
    rw [List.append_assoc, closing?_of_character? (hc.append_ne_quote _) hc.character?, ih]
    simp

/-- The contents of a string literal are read exactly if a part of the text spells them. -/
theorem contents?_eq_some_iff {text cs rest : List Char} :
    contents? text = some (cs, rest) ↔
      ∃ part, CharsSpelledBy cs part ∧ text = part ++ '"' :: rest := by
  constructor
  · intro h
    obtain ⟨cs', part, hpart, rfl, rfl⟩ := spelledBy_of_closing? h
    exact ⟨part, hpart, rfl⟩
  · rintro ⟨part, hpart, rfl⟩
    exact hpart.closing? []

/-- A lower-case hexadecimal digit that is written is one. -/
theorem hexDigit_digitChar {n : Nat} (h : n < 16) : HexDigit n (Nat.digitChar n) := by
  interval_cases n <;> decide

/-- What is written for a character is a spelling of it. -/
theorem spelledBy_escaped (c : Char) : CharSpelledBy c (escaped c) := by
  unfold escaped
  -- Seven characters have a test of their own and are written by a short escape.
  iterate 7
    split
    · next h =>
      subst h
      exact .short (by decide)
  split
  · next hcontrol =>
    rw [Char.lt_def, UInt32.lt_iff_toNat_lt] at hcontrol
    have hlt : c.toNat < 0x20 := hcontrol
    have hzero : HexDigit 0 '0' := by decide
    exact .unit (.mk hzero hzero (hexDigit_digitChar (by omega)) (hexDigit_digitChar (by omega))
      (by omega))
  · next hquote hbackslash _ _ _ _ _ hcontrol =>
    rw [Char.not_lt, Char.le_def, UInt32.le_iff_toNat_le] at hcontrol
    exact .raw hquote hbackslash hcontrol

/-- What is written for a text spells it, between quotation marks. -/
theorem spelledBy_literal (s : String) : SpelledBy s (literal s) := by
  apply SpelledBy.mk
  induction s.toList with
  | nil => exact .nil
  | cons c cs ih => exact .cons (spelledBy_escaped c) ih

end LoginService.Json.Quoted
