import LoginService.Json.Token
import LoginService.Proofs.Json.Numeral
import LoginService.Proofs.Json.Quoted

/-!
# Reading tokens

A text is cut into the tokens of which it is made. Between two tokens the cut is forced: only a
numeral could go on, and what follows a numeral in a JSON text cannot lengthen it.
-/

namespace LoginService.Json

open Numeral (Lengthens)

/-- The blanks of the reader are those of the grammar. -/
theorem isBlank_iff {c : Char} : isBlank c ↔ c = ' ' ∨ c = '\t' ∨ c = '\n' ∨ c = '\r' := by
  simp [isBlank, or_assoc]

/-- No characters are blanks. -/
theorem blanks_nil : Blanks [] := by
  simp [Blanks]

/-- A blank in front of blanks. -/
theorem blanks_cons {c : Char} {text : List Char} (hc : isBlank c) (h : Blanks text) :
    Blanks (c :: text) := by
  intro d hd
  rcases List.mem_cons.mp hd with rfl | hd
  · exact isBlank_iff.mp hc
  · exact h d hd

/-- A blank does not lengthen a numeral. -/
theorem not_lengthens_of_isBlank {c : Char} (h : isBlank c) : ¬Lengthens c := by
  rcases isBlank_iff.mp h with rfl | rfl | rfl | rfl <;> simp [Lengthens]

/-- Blanks do not lengthen a numeral. -/
theorem Blanks.notAhead {blanks rest : List Char} (h : Blanks blanks)
    (hrest : NotAhead Lengthens rest) : NotAhead Lengthens (blanks ++ rest) := by
  cases blanks with
  | nil => exact hrest
  | cons c blanks =>
    have hc : isBlank c := isBlank_iff.mpr (h c List.mem_cons_self)
    exact notAhead_cons.mpr (not_lengthens_of_isBlank hc)

namespace Token

/-- How a token is written. -/
inductive SpelledBy : Token → List Char → Prop where
  | openBrace : SpelledBy .openBrace ['\x7b']
  | closeBrace : SpelledBy .closeBrace ['\x7d']
  | openBracket : SpelledBy .openBracket ['[']
  | closeBracket : SpelledBy .closeBracket [']']
  | colon : SpelledBy .colon [':']
  | comma : SpelledBy .comma [',']
  | null : SpelledBy .null ['n', 'u', 'l', 'l']
  | true : SpelledBy (.bool true) ['t', 'r', 'u', 'e']
  | false : SpelledBy (.bool false) ['f', 'a', 'l', 's', 'e']
  | number {numeral : Numeral} {n : Number} {text : List Char} (hspelled : numeral.SpelledBy text)
      (hnumber : numeral.number? = some n) : SpelledBy (.number n) text
  | string {s : String} {text : List Char} (h : Quoted.SpelledBy s text) :
      SpelledBy (.string s) text

/-- A token that is read is spelled by a part of the text. -/
theorem spelledBy_of_read? {text rest : List Char} {t : Token} (h : read? text = some (t, rest)) :
    ∃ part, t.SpelledBy part ∧ text = part ++ rest := by
  unfold read? at h
  split at h
  case h_7 =>
    obtain ⟨⟨contents, last⟩, hcontents, hpair⟩ := Option.map_eq_some_iff.mp h
    obtain ⟨rfl, rfl⟩ := Prod.mk.inj hpair
    obtain ⟨part, hpart, rfl⟩ := Quoted.contents?_eq_some_iff.mp hcontents
    refine ⟨'"' :: (part ++ ['"']), .string (.mk ?_), by simp⟩
    rwa [String.toList_ofList]
  case h_11 =>
    simp only [number?, Option.bind_eq_bind, Option.bind_eq_some_iff, Option.pure_def,
      Option.some.injEq, Prod.mk.injEq] at h
    obtain ⟨⟨numeral, last⟩, hnumeral, n, hnumber, rfl, rfl⟩ := h
    obtain ⟨part, hpart, rfl⟩ := Numeral.spelledBy_of_read? hnumeral
    exact ⟨part, .number hpart hnumber, rfl⟩
  all_goals
    obtain ⟨rfl, rfl⟩ := Prod.mk.inj (Option.some.inj h)
    exact ⟨_, by constructor, rfl⟩

/-- A text that begins like a numeral is read as one. -/
theorem read?_eq_number? {first : Char} {more : List Char}
    (hfirst : first = '-' ∨ first.isDigit) : read? (first :: more) = number? (first :: more) := by
  have hother : ∀ c ∈ ['\x7b', '\x7d', '[', ']', ':', ',', '"', 'n', 't', 'f'], first ≠ c := by
    rintro c hc rfl
    rcases hfirst with rfl | hdigit
    · exact absurd hc (by decide)
    · simp only [List.mem_cons, List.not_mem_nil, or_false] at hc
      rcases hc with rfl | rfl | rfl | rfl | rfl | rfl | rfl | rfl | rfl | rfl <;>
        exact absurd hdigit (by decide)
  unfold read?
  split
  case h_11 => rfl
  all_goals
    next heq => exact absurd (List.cons.inj heq).1 (hother _ (by simp))

/-- A token that is spelled is read. Only a numeral depends on what follows. -/
theorem SpelledBy.read? {t : Token} {text rest : List Char} (h : t.SpelledBy text)
    (hrest : ∀ n, t = .number n → NotAhead Lengthens rest) :
    read? (text ++ rest) = some (t, rest) := by
  cases h with
  | @number numeral n text hspelled hnumber =>
    obtain ⟨first, more, rfl, hfirst⟩ := hspelled.exists_cons
    have hread := hspelled.read? (hrest n rfl)
    rw [List.cons_append] at hread ⊢
    rw [read?_eq_number? hfirst, number?, hread]
    simp [hnumber]
  | @string s text h =>
    obtain ⟨hchars⟩ := h
    rw [List.cons_append, List.append_assoc, List.singleton_append, Token.read?, string?,
      Quoted.contents?_eq_some_iff.mpr ⟨_, hchars, rfl⟩, Option.map_some]
    simp only [String.ofList_toList]
  | _ => rfl

/-- No token begins with a blank. -/
theorem SpelledBy.exists_cons {t : Token} {text : List Char} (h : t.SpelledBy text) :
    ∃ first more, text = first :: more ∧ ¬isBlank first := by
  cases h with
  | number hspelled =>
    obtain ⟨first, more, rfl, hfirst⟩ := hspelled.exists_cons
    refine ⟨first, more, rfl, fun hblank => ?_⟩
    rcases isBlank_iff.mp hblank with rfl | rfl | rfl | rfl <;> exact absurd hfirst (by decide)
  | string h =>
    obtain ⟨-⟩ := h
    exact ⟨'"', _, rfl, by decide⟩
  | _ => exact ⟨_, _, rfl, by decide⟩

end Token

/-- A text is made of the given tokens, with blanks before, between and after them. -/
inductive Lexed : List Token → List Char → Prop where
  | nil {blanks : List Char} (h : Blanks blanks) : Lexed [] blanks
  | cons {t : Token} {tokens : List Token} {before text rest : List Char} (hbefore : Blanks before)
      (ht : t.SpelledBy text) (hrest : Lexed tokens rest) :
      Lexed (t :: tokens) (before ++ text ++ rest)

namespace Lexed

/-- A blank in front changes nothing. -/
theorem blank {tokens : List Token} {c : Char} {text : List Char} (hc : isBlank c)
    (h : Lexed tokens text) : Lexed tokens (c :: text) := by
  cases h with
  | nil h => exact .nil (blanks_cons hc h)
  | cons hbefore ht hrest => exact .cons (blanks_cons hc hbefore) ht hrest

/-- Where a token comes first, the text begins with blanks and with the token. -/
theorem exists_append {t : Token} {tokens : List Token} {text : List Char}
    (h : Lexed (t :: tokens) text) :
    ∃ before part rest, Blanks before ∧ t.SpelledBy part ∧ Lexed tokens rest ∧
      text = before ++ part ++ rest := by
  cases h with
  | cons hbefore ht hrest => exact ⟨_, _, _, hbefore, ht, hrest, rfl⟩

end Lexed

namespace Token

/-- The tokens that are read make up the text. -/
theorem lexed_of_scan? {before tokens : List Token} {text : List Char}
    (h : scan? before text = some tokens) :
    ∃ more, Lexed more text ∧ tokens = before.reverse ++ more := by
  fun_induction scan? before text with
  | case1 before =>
    cases h
    exact ⟨[], .nil blanks_nil, by simp⟩
  | case2 before c rest hblank ih =>
    obtain ⟨more, hmore, rfl⟩ := ih h
    exact ⟨more, hmore.blank hblank, rfl⟩
  | case3 => cases h
  | case4 before c rest hblank t last hread ih =>
    obtain ⟨part, hpart, htext⟩ := spelledBy_of_read? hread
    obtain ⟨more, hmore, rfl⟩ := ih h
    refine ⟨t :: more, ?_, by simp⟩
    rw [htext]
    exact .cons blanks_nil hpart hmore

/-- Blanks are skipped. -/
theorem scan?_blanks {blanks : List Char} (h : Blanks blanks) (before : List Token)
    (rest : List Char) : scan? before (blanks ++ rest) = scan? before rest := by
  induction blanks with
  | nil => rfl
  | cons c blanks ih =>
    have hc : isBlank c := isBlank_iff.mpr (h c List.mem_cons_self)
    rw [List.cons_append, scan?, if_pos hc]
    exact ih fun d hd => h d (List.mem_cons_of_mem _ hd)

/-- Where neither a blank nor a token stands, the text is not made of tokens. -/
theorem scan?_eq_none_of_read? {c : Char} {rest : List Char} (hblank : ¬isBlank c)
    (h : read? (c :: rest) = none) (before : List Token) : scan? before (c :: rest) = none := by
  rw [scan?, if_neg hblank]
  split
  · rfl
  · next hsome =>
    rw [h] at hsome
    cases hsome

/-- A token that is spelled is put with those before it. -/
theorem SpelledBy.scan? {t : Token} {text rest : List Char} (h : t.SpelledBy text)
    (hrest : ∀ n, t = .number n → NotAhead Lengthens rest) (before : List Token) :
    scan? before (text ++ rest) = scan? (t :: before) rest := by
  obtain ⟨first, more, rfl, hfirst⟩ := h.exists_cons
  have hread := h.read? hrest
  rw [List.cons_append] at hread ⊢
  rw [Token.scan?, if_neg hfirst]
  split
  · next hnone =>
    rw [hread] at hnone
    cases hnone
  · next hsome =>
    rw [hread] at hsome
    cases hsome
    rfl

end Token

end LoginService.Json
