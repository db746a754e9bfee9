import LoginService.Digits

/-!
# JSON numerals

The parts of a number literal, and how they are read: a sign, the digits before the point without a
superfluous zero in front, and at choice digits after the point and an exponent.
-/

namespace LoginService.Json

/-- The explicit exponent of a numeral. -/
structure Exponent where
  /-- Whether the exponent has a minus sign. -/
  negative : Bool
  /-- The digits of the exponent. -/
  digits : List Char

/-- A number literal by its parts. -/
structure Numeral where
  /-- Whether the numeral has a minus sign. -/
  negative : Bool
  /-- The digits before the point. -/
  whole : List Char
  /-- The digits after the point; empty if there is no point. -/
  fraction : List Char
  /-- The explicit exponent, if there is one. -/
  exponent : Option Exponent

namespace Numeral

/-- Reads a minus sign, if there is one. -/
def sign : List Char → Bool × List Char
  | '-' :: rest => (true, rest)
  | rest => (false, rest)

/-- Reads the sign of an exponent, if there is one. -/
def exponentSign : List Char → Bool × List Char
  | '-' :: rest => (true, rest)
  | '+' :: rest => (false, rest)
  | rest => (false, rest)

/-- Reads the digits before the point: a zero alone, or digits that begin with another. -/
def whole? (text : List Char) : Option (List Char × List Char) :=
  match Digits.read? text with
  | some ('0' :: _ :: _, _) => none
  | found => found

/-- Reads a point and the digits after it, if there is a point. -/
def fraction? : List Char → Option (List Char × List Char)
  | '.' :: rest => Digits.read? rest
  | rest => some ([], rest)

/-- Reads an explicit exponent, if there is one. -/
def exponent? : List Char → Option (Option Exponent × List Char)
  | [] => some (none, [])
  | mark :: rest =>
    if mark = 'e' ∨ mark = 'E' then
      let signed := exponentSign rest
      (Digits.read? signed.2).map fun (digits, rest) => (some ⟨signed.1, digits⟩, rest)
    else
      some (none, mark :: rest)

/-- Reads the longest numeral at the front of a text. A sign, a point or an exponent mark without
the digits it calls for is an error. -/
def read? (text : List Char) : Option (Numeral × List Char) := do
  let (negative, text) := sign text
  let (whole, text) ← whole? text
  let (fraction, text) ← fraction? text
  let (exponent, text) ← exponent? text
  return (⟨negative, whole, fraction, exponent⟩, text)

/-- Reading a minus sign does not lengthen the text. -/
theorem length_sign (text : List Char) : (sign text).2.length ≤ text.length := by
  unfold sign
  split <;> simp

/-- Reading the sign of an exponent does not lengthen the text. -/
theorem length_exponentSign (text : List Char) : (exponentSign text).2.length ≤ text.length := by
  unfold exponentSign
  split <;> simp

/-- Reading the digits before the point shortens the text. -/
theorem length_of_whole? {text digits rest : List Char} (h : whole? text = some (digits, rest)) :
    rest.length < text.length := by
  unfold whole? at h
  split at h
  · simp at h
  · exact Digits.length_of_read? h

/-- Reading a fraction does not lengthen the text. -/
theorem length_of_fraction? {text digits rest : List Char}
    (h : fraction? text = some (digits, rest)) : rest.length ≤ text.length := by
  unfold fraction? at h
  split at h
  · have := Digits.length_of_read? h
    simp only [List.length_cons]
    omega
  · simp_all

/-- Reading an explicit exponent does not lengthen the text. -/
theorem length_of_exponent? {text rest : List Char} {exponent : Option Exponent}
    (h : exponent? text = some (exponent, rest)) : rest.length ≤ text.length := by
  unfold exponent? at h
  split at h
  · simp_all
  · next mark tail =>
    split at h
    · obtain ⟨⟨digits, last⟩, hdigits, hpair⟩ := Option.map_eq_some_iff.mp h
      have hshorter := Digits.length_of_read? hdigits
      have hsign := length_exponentSign tail
      obtain ⟨-, rfl⟩ := Prod.mk.inj hpair
      simp only [List.length_cons]
      omega
    · simp_all

/-- Reading a numeral shortens the text. -/
theorem length_of_read? {text rest : List Char} {n : Numeral} (h : read? text = some (n, rest)) :
    rest.length < text.length := by
  simp only [read?, Option.bind_eq_bind, Option.bind_eq_some_iff, Option.pure_def,
    Option.some.injEq, Prod.mk.injEq] at h
  obtain ⟨⟨whole, afterWhole⟩, hwhole, ⟨fraction, afterFraction⟩, hfraction, ⟨exponent, last⟩,
    hexponent, -, rfl⟩ := h
  have := length_sign text
  have := length_of_whole? hwhole
  have := length_of_fraction? hfraction
  have := length_of_exponent? hexponent
  dsimp only at *
  omega

end Numeral

end LoginService.Json
