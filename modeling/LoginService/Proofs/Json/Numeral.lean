import LoginService.Proofs.Json.Grammar
import LoginService.Proofs.NotAhead

/-!
# Reading numerals

The reader of numerals takes a spelling off the front of a text, and it takes the longest one: a
spelling is read in full if what follows it could not lengthen it.
-/

namespace LoginService

namespace Digits

open Json.Numeral

/-- Digits are read from a text exactly if it begins with them and they are all there are. -/
theorem read?_eq_some_iff {text digits rest : List Char} :
    read? text = some (digits, rest) ↔
      DigitRun digits ∧ text = digits ++ rest ∧ NotAhead (·.isDigit) rest := by
  constructor
  · intro h
    unfold read? at h
    split at h
    · cases h
    · next found hnonempty =>
      have hsplit : split text = (digits, rest) := Option.some.inj h
      obtain ⟨htake, hdrop⟩ := Prod.mk.inj hsplit
      obtain ⟨hdigits, htext, hrest⟩ := cut_eq_iff.mp ⟨htake, hdrop⟩
      refine ⟨⟨?_, hdigits⟩, htext, hrest⟩
      rintro rfl
      exact hnonempty rest hsplit
  · rintro ⟨⟨hne, hdigits⟩, htext, hrest⟩
    obtain ⟨htake, hdrop⟩ := cut_eq_iff.mpr ⟨hdigits, htext, hrest⟩
    unfold read?
    rw [split, htake, hdrop]
    cases digits with
    | nil => exact absurd rfl hne
    | cons c digits => rfl

end Digits

namespace Json.Numeral

/-- A minus sign that is read stands in front. -/
theorem eq_append_sign (text : List Char) :
    text = (if (sign text).1 then ['-'] else []) ++ (sign text).2 := by
  unfold sign
  split <;> rfl

/-- Digits before the point that are read spell an integer. -/
theorem spelledBy_of_whole? {text digits rest : List Char} (h : whole? text = some (digits, rest)) :
    WholeSpelledBy digits ∧ text = digits ++ rest := by
  unfold whole? at h
  split at h
  · cases h
  · next found hzero =>
    obtain ⟨⟨hne, hdigits⟩, htext, -⟩ := Digits.read?_eq_some_iff.mp h
    refine ⟨?_, htext⟩
    cases digits with
    | nil => exact absurd rfl hne
    | cons first digits =>
      by_cases hfirst : first = '0'
      · subst hfirst
        cases digits with
        | nil => exact .zero
        | cons second digits => exact absurd h (hzero second digits rest)
      · exact .positive (hdigits first List.mem_cons_self) hfirst
          fun c hc => hdigits c (List.mem_cons_of_mem _ hc)

/-- A fraction that is read is spelled by a part of the text. -/
theorem spelledBy_of_fraction? {text digits rest : List Char}
    (h : fraction? text = some (digits, rest)) :
    ∃ part, FractionSpelledBy digits part ∧ text = part ++ rest := by
  unfold fraction? at h
  split at h
  · obtain ⟨hdigits, rfl, -⟩ := Digits.read?_eq_some_iff.mp h
    exact ⟨'.' :: digits, .present hdigits, rfl⟩
  · obtain ⟨rfl, rfl⟩ := Prod.mk.inj (Option.some.inj h)
    exact ⟨[], .absent, rfl⟩

/-- An exponent that is read is spelled by a part of the text. -/
theorem spelledBy_of_exponent? {text rest : List Char} {exponent : Option Exponent}
    (h : exponent? text = some (exponent, rest)) :
    ∃ part, ExponentSpelledBy exponent part ∧ text = part ++ rest := by
  unfold exponent? at h
  split at h
  · obtain ⟨rfl, rfl⟩ := Prod.mk.inj (Option.some.inj h)
    exact ⟨[], .absent, rfl⟩
  · next mark tail =>
    split at h
    · next hmark =>
      obtain ⟨⟨digits, last⟩, hread, hpair⟩ := Option.map_eq_some_iff.mp h
      obtain ⟨rfl, rfl⟩ := Prod.mk.inj hpair
      obtain ⟨hdigits, hsigned, -⟩ := Digits.read?_eq_some_iff.mp hread
      unfold exponentSign at hsigned ⊢
      split at hsigned
      · obtain rfl : _ = digits ++ last := hsigned
        exact ⟨mark :: '-' :: digits, .minus hmark hdigits, rfl⟩
      · obtain rfl : _ = digits ++ last := hsigned
        exact ⟨mark :: '+' :: digits, .plus hmark hdigits, rfl⟩
      · obtain rfl : _ = digits ++ last := hsigned
        exact ⟨mark :: digits, .unsigned hmark hdigits, rfl⟩
    · obtain ⟨rfl, rfl⟩ := Prod.mk.inj (Option.some.inj h)
      exact ⟨[], .absent, rfl⟩

/-- A numeral that is read is spelled by a part of the text. -/
theorem spelledBy_of_read? {text rest : List Char} {n : Numeral}
    (h : read? text = some (n, rest)) : ∃ part, n.SpelledBy part ∧ text = part ++ rest := by
  simp only [read?, Option.bind_eq_bind, Option.bind_eq_some_iff, Option.pure_def,
    Option.some.injEq, Prod.mk.injEq] at h
  obtain ⟨⟨whole, afterWhole⟩, hwhole, ⟨fraction, afterFraction⟩, hfraction, ⟨exponent, last⟩,
    hexponent, rfl, rfl⟩ := h
  dsimp only at hfraction hexponent ⊢
  obtain ⟨exponentText, hspelledExponent, rfl⟩ := spelledBy_of_exponent? hexponent
  obtain ⟨fractionText, hspelledFraction, rfl⟩ := spelledBy_of_fraction? hfraction
  obtain ⟨hspelledWhole, htext⟩ := spelledBy_of_whole? hwhole
  refine ⟨_, .mk hspelledWhole hspelledFraction hspelledExponent, ?_⟩
  conv => lhs; rw [eq_append_sign text, htext]
  simp only [List.append_assoc]

/-- What may lengthen a numeral: a digit, a point or an exponent mark. -/
def Lengthens (c : Char) : Prop :=
  c.isDigit ∨ c = '.' ∨ c = 'e' ∨ c = 'E'

/-- The spelling of an integer begins with a digit. -/
theorem WholeSpelledBy.exists_cons {digits : List Char} (h : WholeSpelledBy digits) :
    ∃ first more, digits = first :: more ∧ first.isDigit := by
  cases h with
  | zero => exact ⟨'0', [], rfl, rfl⟩
  | positive hfirst => exact ⟨_, _, rfl, hfirst⟩

/-- The spelling of an integer is a run of digits. -/
theorem WholeSpelledBy.digitRun {digits : List Char} (h : WholeSpelledBy digits) :
    DigitRun digits := by
  cases h with
  | zero => simp [DigitRun]
  | positive hfirst _ hdigits =>
    refine ⟨List.cons_ne_nil _ _, fun c hc => ?_⟩
    rcases List.mem_cons.mp hc with rfl | hc
    · exact hfirst
    · exact hdigits c hc

/-- An integer that is spelled is read. -/
theorem WholeSpelledBy.whole? {digits rest : List Char} (h : WholeSpelledBy digits)
    (hrest : NotAhead (·.isDigit) rest) : whole? (digits ++ rest) = some (digits, rest) := by
  have hread := Digits.read?_eq_some_iff.mpr ⟨h.digitRun, rfl, hrest⟩
  unfold Numeral.whole?
  rw [hread]
  cases h with
  | zero => rfl
  | positive _ hzero =>
    split
    · next heq =>
      simp only [Option.some.injEq, Prod.mk.injEq, List.cons.injEq] at heq
      exact absurd heq.1.1 hzero
    · rfl

/-- A fraction that is spelled is read. -/
theorem FractionSpelledBy.fraction? {digits text rest : List Char}
    (h : FractionSpelledBy digits text) (hrest : NotAhead (fun c => c.isDigit ∨ c = '.') rest) :
    fraction? (text ++ rest) = some (digits, rest) := by
  cases h with
  | absent =>
    unfold Numeral.fraction?
    split
    · next heq =>
      rw [List.nil_append] at heq
      simp [heq] at hrest
    · rfl
  | present hdigits =>
    exact Digits.read?_eq_some_iff.mpr ⟨hdigits, rfl, hrest.imp fun c hc => .inl hc⟩

/-- A digit is no sign. -/
theorem sign_cons_of_isDigit {c : Char} (hc : c.isDigit) (text : List Char) :
    sign (c :: text) = (false, c :: text) ∧ exponentSign (c :: text) = (false, c :: text) := by
  have hminus : c ≠ '-' := by rintro rfl; exact absurd hc (by decide)
  have hplus : c ≠ '+' := by rintro rfl; exact absurd hc (by decide)
  constructor
  · unfold sign
    split
    · next heq => exact absurd (List.cons.inj heq).1 hminus
    · rfl
  · unfold exponentSign
    split
    · next heq => exact absurd (List.cons.inj heq).1 hminus
    · next heq => exact absurd (List.cons.inj heq).1 hplus
    · rfl

/-- An exponent mark is neither a digit nor a point. -/
theorem not_isDigit_of_mark {mark : Char} (h : mark = 'e' ∨ mark = 'E') :
    ¬(mark.isDigit ∨ mark = '.') := by
  rcases h with rfl | rfl <;> decide

/-- An exponent that is spelled is read. -/
theorem ExponentSpelledBy.exponent? {exponent : Option Exponent} {text rest : List Char}
    (h : ExponentSpelledBy exponent text) (hrest : NotAhead Lengthens rest) :
    exponent? (text ++ rest) = some (exponent, rest) := by
  have hdigit : NotAhead (·.isDigit) rest := hrest.imp fun c hc => .inl hc
  cases h with
  | absent =>
    cases rest with
    | nil => rfl
    | cons c rest =>
      have hmark : ¬(c = 'e' ∨ c = 'E') := fun hc => notAhead_cons.mp hrest (.inr (.inr hc))
      rw [List.nil_append, Numeral.exponent?, if_neg hmark]
  | @unsigned mark digits hmark hdigits =>
    have hread := Digits.read?_eq_some_iff.mpr ⟨hdigits, rfl, hdigit⟩
    have hsign : exponentSign (digits ++ rest) = (false, digits ++ rest) := by
      obtain ⟨first, more, rfl⟩ := List.exists_cons_of_ne_nil hdigits.1
      exact (sign_cons_of_isDigit (hdigits.2 first List.mem_cons_self) _).2
    simp only [List.cons_append, Numeral.exponent?, if_pos hmark, hsign, hread, Option.map_some]
  | plus hmark hdigits =>
    have hread := Digits.read?_eq_some_iff.mpr ⟨hdigits, rfl, hdigit⟩
    simp only [List.cons_append, Numeral.exponent?, if_pos hmark, exponentSign, hread,
      Option.map_some]
  | minus hmark hdigits =>
    have hread := Digits.read?_eq_some_iff.mpr ⟨hdigits, rfl, hdigit⟩
    simp only [List.cons_append, Numeral.exponent?, if_pos hmark, exponentSign, hread,
      Option.map_some]

/-- Neither a digit nor a point begins an exponent. -/
theorem ExponentSpelledBy.notAhead {exponent : Option Exponent} {text rest : List Char}
    (h : ExponentSpelledBy exponent text) (hrest : NotAhead Lengthens rest) :
    NotAhead (fun c => c.isDigit ∨ c = '.') (text ++ rest) := by
  cases h with
  | absent => exact hrest.imp fun c hc => hc.imp_right .inl
  | unsigned hmark => exact notAhead_cons.mpr (not_isDigit_of_mark hmark)
  | plus hmark => exact notAhead_cons.mpr (not_isDigit_of_mark hmark)
  | minus hmark => exact notAhead_cons.mpr (not_isDigit_of_mark hmark)

/-- No digit begins a fraction. -/
theorem FractionSpelledBy.notAhead {digits text rest : List Char}
    (h : FractionSpelledBy digits text) (hrest : NotAhead (fun c => c.isDigit ∨ c = '.') rest) :
    NotAhead (·.isDigit) (text ++ rest) := by
  cases h with
  | absent => exact hrest.imp fun c hc => .inl hc
  | present => exact notAhead_cons.mpr (by decide)

/-- A numeral begins with a minus sign or a digit. -/
theorem SpelledBy.exists_cons {n : Numeral} {text : List Char} (h : n.SpelledBy text) :
    ∃ first more, text = first :: more ∧ (first = '-' ∨ first.isDigit) := by
  obtain ⟨negative, whole, fraction, exponent⟩ := n
  cases h with
  | mk hwhole =>
    obtain ⟨first, more, rfl, hfirst⟩ := hwhole.exists_cons
    cases negative with
    | true => exact ⟨'-', _, rfl, .inl rfl⟩
    | false => exact ⟨first, _, rfl, .inr hfirst⟩

/-- The digits of a numeral are characters of its spelling. -/
theorem SpelledBy.length_digits_le {n : Numeral} {text : List Char} (h : n.SpelledBy text) :
    n.whole.length + n.fraction.length ≤ text.length := by
  obtain ⟨negative, whole, fraction, exponent⟩ := n
  cases h with
  | mk _ hfraction =>
    simp only [List.length_append]
    dsimp only at hfraction
    cases hfraction with
    | absent =>
      rw [List.length_nil]
      omega
    | present =>
      simp only [List.length_cons]
      omega

/-- The digits of a numeral are digits. -/
theorem SpelledBy.isDigit {n : Numeral} {text : List Char} (h : n.SpelledBy text) :
    (∀ c ∈ n.whole, c.isDigit) ∧ ∀ c ∈ n.fraction, c.isDigit := by
  obtain ⟨negative, whole, fraction, exponent⟩ := n
  cases h with
  | mk hwhole hfraction =>
    refine ⟨hwhole.digitRun.2, ?_⟩
    dsimp only at hfraction ⊢
    cases hfraction with
    | absent => simp
    | present hdigits => exact hdigits.2

/-- A numeral that is spelled is read. -/
theorem SpelledBy.read? {n : Numeral} {text rest : List Char} (h : n.SpelledBy text)
    (hrest : NotAhead Lengthens rest) : read? (text ++ rest) = some (n, rest) := by
  obtain ⟨negative, whole, fraction, exponent⟩ := n
  cases h with
  | @mk fractionText exponentText hwhole hfraction hexponent =>
    dsimp only at hwhole hfraction hexponent ⊢
    have hpoint := hexponent.notAhead hrest
    have hsign : sign ((if negative then ['-'] else []) ++
        (whole ++ (fractionText ++ (exponentText ++ rest)))) =
        (negative, whole ++ (fractionText ++ (exponentText ++ rest))) := by
      cases negative with
      | true => rfl
      | false =>
        obtain ⟨first, more, rfl, hfirst⟩ := hwhole.exists_cons
        exact (sign_cons_of_isDigit hfirst _).1
    simp only [Numeral.read?, List.append_assoc, hsign, Option.bind_eq_bind, Option.pure_def,
      hwhole.whole? (hfraction.notAhead hpoint), hfraction.fraction? hpoint,
      hexponent.exponent? hrest, Option.bind_some]

end Json.Numeral

end LoginService
