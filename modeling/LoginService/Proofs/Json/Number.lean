import LoginService.Proofs.Digits
import LoginService.Proofs.Json.Numeral

/-!
# Integer literals and the text of integers

An integer literal has neither a point nor an exponent. An integer is written by such a literal, and
if it has 64 bits, it is read back from its text.
-/

namespace LoginService

namespace Json

namespace Numeral

variable {n : Numeral} {literal : List Char}

/-- The numeral is an integer literal. -/
def IsInteger (n : Numeral) : Prop :=
  n.fraction = [] ∧ n.exponent = none

/-- An integer literal is its sign and its digits. -/
theorem SpelledBy.eq_of_isInteger (h : n.SpelledBy literal) (hn : n.IsInteger) :
    literal = (if n.negative then ['-'] else []) ++ n.whole ∧ WholeSpelledBy n.whole := by
  obtain ⟨negative, whole, fraction, exponent⟩ := n
  obtain ⟨rfl, rfl⟩ : fraction = [] ∧ exponent = none := hn
  cases h with
  | @mk fractionText exponentText hwhole hfraction hexponent =>
    dsimp only at hwhole hfraction hexponent ⊢
    cases hfraction with
    | absent =>
      cases hexponent with
      | absent => exact ⟨by simp, hwhole⟩
    | present hdigits => exact absurd rfl hdigits.1

/-- A text with a point or an exponent is no spelling of an integer literal. -/
theorem not_marked_of_isInteger (hspelled : n.SpelledBy literal)
    (hn : n.IsInteger) : ¬('.' ∈ literal ∨ 'e' ∈ literal) := by
  obtain ⟨hliteral, hwhole⟩ := hspelled.eq_of_isInteger hn
  have hdigits : ∀ c ∈ literal, c = '-' ∨ c.isDigit := by
    intro c hc
    rw [hliteral] at hc
    rcases List.mem_append.mp hc with hc | hc
    · left
      split at hc
      · exact List.mem_singleton.mp hc
      · cases hc
    · exact .inr (hwhole.digitRun.2 c hc)
  rintro (hpoint | hmark)
  · exact absurd (hdigits _ hpoint) (by decide)
  · exact absurd (hdigits _ hmark) (by decide)

/-- The digits of a natural number have no superfluous zero in front. -/
theorem wholeSpelledBy_toDigits (n : Nat) : WholeSpelledBy (Nat.toDigits 10 n) := by
  by_cases h : n = 0
  · subst h
    exact .zero
  · obtain ⟨first, rest, hdigits, hfirst⟩ := Digits.toDigits_eq_cons h
    have hall : ∀ c ∈ first :: rest, c.isDigit := by
      intro c hc
      rw [← hdigits] at hc
      exact Digits.isDigit_of_mem_toDigits hc
    rw [hdigits]
    exact .positive (hall first List.mem_cons_self) hfirst fun c hc =>
      hall c (List.mem_cons_of_mem first hc)

/-- The numeral of an integer. -/
def ofInteger (n : Int) : Numeral :=
  ⟨n < 0, Nat.toDigits 10 n.natAbs, [], none⟩

/-- The text of an integer is its numeral. -/
theorem spelledBy_integerText (n : Int) : (ofInteger n).SpelledBy (integerText n).toList := by
  have h : (ofInteger n).SpelledBy _ := .mk (wholeSpelledBy_toDigits n.natAbs) .absent .absent
  rw [integerText, String.toList_ofList]
  by_cases hn : n < 0
  · simpa [ofInteger, hn] using h
  · simpa [ofInteger, hn] using h

/-- A numeral without fraction and exponent whose digits fit 64 bits is decided by its sign. -/
theorem integer?_of_gather {negative : Bool} {whole : List Char} {magnitude : Nat}
    (h : Digits.gather greatestSignificand 0 whole = (magnitude, [])) :
    integer? ⟨negative, whole, [], none⟩ =
      if negative then
        if magnitude = 0 ∨ greatestNegated < magnitude then none else some (-(magnitude : Int))
      else some (magnitude : Int) := by
  simp only [integer?, h]

/-- The numeral of an integer of 64 bits, signed or unsigned, stands for it. -/
theorem number?_ofInteger {n : Int} (hlow : -greatestNegated ≤ n)
    (hhigh : n ≤ greatestSignificand) : (ofInteger n).number? = some (.integer n) := by
  have hfits : n.natAbs ≤ greatestSignificand := by
    simp only [greatestNegated, greatestSignificand] at *
    omega
  have hinteger : (ofInteger n).integer? = some n := by
    rw [ofInteger, integer?_of_gather (Digits.gather_toDigits hfits)]
    by_cases hn : n < 0
    · rw [if_pos (decide_eq_true hn), if_neg (by omega)]
      congr 1
      omega
    · rw [if_neg (by simp [hn])]
      congr 1
      omega
  rw [number?, hinteger]

/-- The numeral that is read as an integer writes one of 64 bits. -/
theorem bounds_of_number? {i : Int} (h : n.number? = some (.integer i)) :
    -greatestNegated ≤ i ∧ i ≤ greatestSignificand := by
  have hinteger : n.integer? = some i := by
    unfold number? at h
    split at h
    · next j hj =>
      cases h
      exact hj
    · obtain ⟨a, -, ha⟩ := Option.map_eq_some_iff.mp h
      cases ha
  unfold integer? at hinteger
  split at hinteger
  · next magnitude _ _ hgather =>
    have hfits : magnitude ≤ greatestSignificand :=
      ((Digits.gather_eq_iff (Nat.zero_le _)).mp hgather).2
    have hsigned : greatestNegated ≤ greatestSignificand := by decide
    split at hinteger
    · split at hinteger
      · cases hinteger
      · cases hinteger
        omega
    · cases hinteger
      omega
  · cases hinteger

/-- The text of an integer of 64 bits has at most 21 characters. -/
theorem length_integerText_le {n : Int} (hlow : -greatestNegated ≤ n)
    (hhigh : n ≤ greatestSignificand) : (integerText n).toList.length ≤ 21 := by
  simp only [greatestNegated, greatestSignificand] at hlow hhigh
  have hdigits : (Nat.toDigits 10 n.natAbs).length ≤ 20 :=
    (Nat.length_toDigits_le_iff (by decide) (by decide)).mpr (by omega)
  rw [integerText, String.toList_ofList]
  split
  · rw [List.length_cons]
    omega
  · omega

end Numeral

/-- The number is read back from its text. -/
def Number.ReadsBack (n : Number) : Prop :=
  ∃ numeral : Numeral, numeral.SpelledBy n.text.toList ∧ numeral.number? = some n

/-- An integer of 64 bits, signed or unsigned, is read back from its text. -/
theorem Number.readsBack_integer {n : Int} (hlow : -greatestNegated ≤ n)
    (hhigh : n ≤ greatestSignificand) : (Number.integer n).ReadsBack :=
  ⟨.ofInteger n, Numeral.spelledBy_integerText n, Numeral.number?_ofInteger hlow hhigh⟩

end Json

end LoginService
