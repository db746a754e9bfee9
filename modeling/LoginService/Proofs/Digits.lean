import LoginService.Digits

/-!
# Digits and the numbers that they write

Gathering digits under a limit gives the number that the digits write, as long as that number does
not pass the limit. The digits of a number begin with a zero only if the number is zero.
-/

namespace LoginService.Digits

/-- Appending digits does not make a number smaller. -/
theorem le_ofDigitChars (digits : List Char) (number : Nat) :
    number ≤ Nat.ofDigitChars 10 digits number := by
  induction digits generalizing number with
  | nil => exact Nat.le_refl _
  | cons digit digits ih =>
    rw [Nat.ofDigitChars_cons]
    have := ih (10 * number + (digit.toNat - '0'.toNat))
    omega

/-- All digits are gathered if and only if the number that they write is within the limit. -/
theorem gather_eq_iff {limit number m : Nat} {digits : List Char} (hnumber : number ≤ limit) :
    gather limit number digits = (m, []) ↔ m = Nat.ofDigitChars 10 digits number ∧ m ≤ limit := by
  induction digits generalizing number with
  | nil =>
    rw [gather, Nat.ofDigitChars_nil, Prod.mk.injEq]
    constructor
    · rintro ⟨rfl, -⟩
      exact ⟨rfl, hnumber⟩
    · rintro ⟨rfl, -⟩
      exact ⟨rfl, rfl⟩
  | cons digit digits ih =>
    have hlonger : 10 * number + (digit.toNat - '0'.toNat) = number * 10 + value digit := by
      rw [value, Nat.mul_comm]
    rw [gather, Nat.ofDigitChars_cons, hlonger]
    split
    · next hfits => exact ih hfits
    · next hpassed =>
      have hle := le_ofDigitChars digits (number * 10 + value digit)
      constructor
      · intro h
        cases h
      · rintro ⟨rfl, hm⟩
        omega

/-- What is gathered is the number that the first digits write. If digits are left out, the first of
them would have passed the limit. -/
theorem of_gather {limit number m : Nat} {digits left : List Char}
    (h : gather limit number digits = (m, left)) :
    ∃ used, digits = used ++ left ∧ m = Nat.ofDigitChars 10 used number ∧
      ∀ digit ∈ left.head?, limit < 10 * m + value digit := by
  induction digits generalizing number with
  | nil =>
    cases h
    exact ⟨[], rfl, rfl, by simp⟩
  | cons digit digits ih =>
    rw [gather] at h
    split at h
    · obtain ⟨used, rfl, rfl, hleft⟩ := ih h
      refine ⟨digit :: used, rfl, ?_, hleft⟩
      rw [Nat.ofDigitChars_cons, Nat.mul_comm 10 number]
      rfl
    · next hpassed =>
      cases h
      refine ⟨[], rfl, rfl, ?_⟩
      simp only [List.head?_cons, Option.mem_def, Option.some.injEq, forall_eq']
      omega

/-- What is gathered stays within the limit. -/
theorem gather_le {limit number : Nat} (digits : List Char) (hnumber : number ≤ limit) :
    (gather limit number digits).1 ≤ limit := by
  fun_induction gather limit number digits with
  | case1 => exact hnumber
  | case2 _ _ _ _ hfits ih => exact ih hfits
  | case3 => exact hnumber

/-- A digit stands for a number below ten. -/
theorem value_lt_ten {digit : Char} (h : digit.isDigit) : value digit < 10 := by
  have hbounds := Char.isDigit_iff_toNat.mp h
  have hzero : '0'.toNat = 48 := by decide
  have hnine : '9'.toNat = 57 := by decide
  rw [value]
  omega

/-- The digits of a number are gathered into that number. -/
theorem gather_toDigits {limit n : Nat} (h : n ≤ limit) :
    gather limit 0 (Nat.toDigits 10 n) = (n, []) :=
  (gather_eq_iff (Nat.zero_le limit)).mpr ⟨Nat.ofDigitChars_ten_toDigits.symm, h⟩

/-- The digits of a number are decimal digits. -/
theorem isDigit_of_mem_toDigits {n : Nat} {c : Char} (h : c ∈ Nat.toDigits 10 n) : c.isDigit :=
  Nat.isDigit_of_mem_toDigits (by decide) (by decide) h

/-- A digit that is not the zero is not written like it. -/
theorem digitChar_ne_zero {n : Nat} (hpos : n ≠ 0) (hlt : n < 10) : Nat.digitChar n ≠ '0' := by
  intro h
  have := Nat.toNat_digitChar_of_lt_ten hlt
  rw [h] at this
  simp at this
  omega

/-- A digit is written like the number that it stands for. -/
theorem digitChar_value {c : Char} (h : c.isDigit) : Nat.digitChar (value c) = c := by
  have hbounds := Char.isDigit_iff_toNat.mp h
  have hzero : '0'.toNat = 48 := by decide
  apply Char.toNat_inj.mp
  rw [Nat.toNat_digitChar_of_lt_ten (value_lt_ten h), value]
  omega

/-- Digits that are appended to a number other than zero are appended to its digits. -/
theorem toDigits_ofDigitChars {digits : List Char} (h : ∀ c ∈ digits, c.isDigit) {n : Nat}
    (hn : 0 < n) :
    Nat.toDigits 10 (Nat.ofDigitChars 10 digits n) = Nat.toDigits 10 n ++ digits := by
  induction digits generalizing n with
  | nil => rw [Nat.ofDigitChars_nil, List.append_nil]
  | cons c digits ih =>
    have hc := h c List.mem_cons_self
    have hlonger : 0 < 10 * n + value c := by omega
    have hlast : Nat.toDigits 10 (value c) = [c] := by
      rw [Nat.toDigits_of_lt_base (value_lt_ten hc), digitChar_value hc]
    have hnext : Nat.toDigits 10 (10 * n + value c) = Nat.toDigits 10 n ++ [c] := by
      rw [← Nat.toDigits_append_toDigits (by decide) hn (value_lt_ten hc), hlast]
    rw [Nat.ofDigitChars_cons, ← value, ih (fun d hd => h d (List.mem_cons_of_mem c hd)) hlonger,
      hnext, List.append_assoc, List.singleton_append]

/-- The digits of a number that is not zero begin with another digit than zero. -/
theorem toDigits_eq_cons {n : Nat} (h : n ≠ 0) :
    ∃ first rest, Nat.toDigits 10 n = first :: rest ∧ first ≠ '0' := by
  induction n using Nat.strongRecOn with
  | ind n ih =>
    by_cases hsmall : n < 10
    · exact ⟨_, [], Nat.toDigits_of_lt_base hsmall, digitChar_ne_zero h hsmall⟩
    · obtain ⟨first, rest, hrest, hfirst⟩ := ih (n / 10) (by omega) (by omega)
      refine ⟨first, rest ++ [Nat.digitChar (n % 10)], ?_, hfirst⟩
      rw [Nat.toDigits_of_base_le (by decide) (by omega), hrest, List.cons_append]

end LoginService.Digits
