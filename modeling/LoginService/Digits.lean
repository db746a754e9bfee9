/-!
# Decimal digits

Runs of decimal digits: cutting one off a text, and gathering its number under a limit. A number is
never built beyond the limit, however long the run.
-/

namespace LoginService.Digits

/-- The digits at the front of a text, and what follows them. -/
def split (text : List Char) : List Char × List Char :=
  (text.takeWhile Char.isDigit, text.dropWhile Char.isDigit)

/-- No character is lost in cutting off the digits. -/
theorem length_split (text : List Char) :
    (split text).1.length + (split text).2.length = text.length := by
  rw [split, ← List.length_append, List.takeWhile_append_dropWhile]

/-- The digits at the front of a text and what follows them. There must be at least one digit. -/
def read? (text : List Char) : Option (List Char × List Char) :=
  match split text with
  | ([], _) => none
  | found => some found

/-- Reading digits shortens the text. -/
theorem length_of_read? {text digits rest : List Char} (h : read? text = some (digits, rest)) :
    rest.length < text.length := by
  have hsplit := length_split text
  unfold read? at h
  split at h
  · simp at h
  · next hnonempty =>
    rw [Option.some.inj h] at hsplit hnonempty
    cases digits with
    | nil => exact absurd rfl (hnonempty rest)
    | cons => simp only [List.length_cons] at hsplit; omega

/-- The number that a digit stands for. -/
def value (digit : Char) : Nat :=
  digit.toNat - '0'.toNat

/-- Appends digits to a number for as long as it stays within the limit. The result is the number
with the digits that were left out. -/
def gather (limit : Nat) : Nat → List Char → Nat × List Char
  | number, [] => (number, [])
  | number, digit :: rest =>
    let longer := number * 10 + value digit
    if longer ≤ limit then gather limit longer rest else (number, digit :: rest)

end LoginService.Digits
