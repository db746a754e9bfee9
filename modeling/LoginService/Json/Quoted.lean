/-!
# Quoted strings

Reading accepts every spelling of a character: itself, a short escape, or one or two escapes with
four hexadecimal digits. Writing escapes only the quotation mark, the backslash and the control
characters below U+0020.
-/

namespace LoginService.Json.Quoted

/-- The character that a short escape stands for. -/
def shortEscape? : Char → Option Char
  | '"' => some '"'
  | '\\' => some '\\'
  | '/' => some '/'
  | 'b' => some '\x08'
  | 'f' => some '\x0C'
  | 'n' => some '\n'
  | 'r' => some '\r'
  | 't' => some '\t'
  | _ => none

/-- The value of a hexadecimal digit of either case. -/
def hexValue? (c : Char) : Option Nat :=
  if '0' ≤ c ∧ c ≤ '9' then some (c.toNat - '0'.toNat)
  else if 'a' ≤ c ∧ c ≤ 'f' then some (c.toNat - 'a'.toNat + 10)
  else if 'A' ≤ c ∧ c ≤ 'F' then some (c.toNat - 'A'.toNat + 10)
  else none

/-- Reads four hexadecimal digits as a code unit of 16 bits. -/
def codeUnit? : List Char → Option (Nat × List Char)
  | a :: b :: c :: d :: rest => do
    let a ← hexValue? a
    let b ← hexValue? b
    let c ← hexValue? c
    let d ← hexValue? d
    return (((a * 16 + b) * 16 + c) * 16 + d, rest)
  | _ => none

/-- Whether a code unit is the first half of a surrogate pair. -/
def isHighSurrogate (unit : Nat) : Bool :=
  0xD800 ≤ unit ∧ unit ≤ 0xDBFF

/-- Whether a code unit is the second half of a surrogate pair. -/
def isLowSurrogate (unit : Nat) : Bool :=
  0xDC00 ≤ unit ∧ unit ≤ 0xDFFF

/-- The character that a surrogate pair stands for. -/
def ofSurrogates (high low : Nat) : Char :=
  Char.ofNat (0x10000 + (high - 0xD800) * 0x400 + (low - 0xDC00))

/-- Reads the second half of a surrogate pair as an escape of its own. -/
def lowSurrogate? : List Char → Option (Nat × List Char)
  | '\\' :: 'u' :: rest => (codeUnit? rest).filter fun (unit, _) => isLowSurrogate unit
  | _ => none

/-- Reads what follows `\u`. A first half of a surrogate pair needs its second half, and a second
half does not stand alone. -/
def unicodeEscape? (text : List Char) : Option (Char × List Char) := do
  let (unit, text) ← codeUnit? text
  if isLowSurrogate unit then none
  else if isHighSurrogate unit then
    let (low, text) ← lowSurrogate? text
    return (ofSurrogates unit low, text)
  else
    return (Char.ofNat unit, text)

/-- Reads what follows a backslash. -/
def escape? : List Char → Option (Char × List Char)
  | [] => none
  | 'u' :: rest => unicodeEscape? rest
  | c :: rest => (shortEscape? c).map (·, rest)

/-- Reads one character of a string. -/
def character? : List Char → Option (Char × List Char)
  | [] => none
  | '\\' :: rest => escape? rest
  | c :: rest => if c = '"' ∨ c < ' ' then none else some (c, rest)

/-- Reading four hexadecimal digits shortens the text. -/
theorem length_of_codeUnit? {text rest : List Char} {unit : Nat}
    (h : codeUnit? text = some (unit, rest)) : rest.length < text.length := by
  unfold codeUnit? at h
  split at h
  · simp only [Option.bind_eq_bind, Option.bind_eq_some_iff, Option.pure_def, Option.some.injEq,
      Prod.mk.injEq] at h
    obtain ⟨-, -, -, -, -, -, -, -, -, rfl⟩ := h
    simp only [List.length_cons]
    omega
  · simp at h

/-- Reading the second half of a surrogate pair shortens the text. -/
theorem length_of_lowSurrogate? {text rest : List Char} {unit : Nat}
    (h : lowSurrogate? text = some (unit, rest)) : rest.length < text.length := by
  unfold lowSurrogate? at h
  split at h
  · have := length_of_codeUnit? (Option.filter_eq_some_iff.mp h).1
    simp only [List.length_cons]
    omega
  · simp at h

/-- Reading the rest of a hexadecimal escape shortens the text. -/
theorem length_of_unicodeEscape? {text rest : List Char} {c : Char}
    (h : unicodeEscape? text = some (c, rest)) : rest.length < text.length := by
  simp only [unicodeEscape?, Option.bind_eq_bind, Option.bind_eq_some_iff] at h
  obtain ⟨⟨unit, afterUnit⟩, hunit, h⟩ := h
  have hlonger := length_of_codeUnit? hunit
  dsimp only at h
  split at h
  · simp at h
  · split at h
    · obtain ⟨⟨low, afterLow⟩, hlow, hpair⟩ := Option.bind_eq_some_iff.mp h
      have := length_of_lowSurrogate? hlow
      obtain ⟨-, rfl⟩ := Prod.mk.inj (Option.some.inj hpair)
      dsimp only
      omega
    · obtain ⟨-, rfl⟩ := Prod.mk.inj (Option.some.inj h)
      omega

/-- Reading the rest of an escape shortens the text. -/
theorem length_of_escape? {text rest : List Char} {c : Char}
    (h : escape? text = some (c, rest)) : rest.length < text.length := by
  unfold escape? at h
  split at h
  · simp at h
  · have := length_of_unicodeEscape? h
    simp only [List.length_cons]
    omega
  · obtain ⟨_, -, hpair⟩ := Option.map_eq_some_iff.mp h
    obtain ⟨-, rfl⟩ := Prod.mk.inj hpair
    simp

/-- Reading a character shortens the text. -/
theorem length_of_character? {text rest : List Char} {c : Char}
    (h : character? text = some (c, rest)) : rest.length < text.length := by
  unfold character? at h
  split at h
  · simp at h
  · have := length_of_escape? h
    simp only [List.length_cons]
    omega
  · split at h
    · simp at h
    · obtain ⟨-, rfl⟩ := Prod.mk.inj (Option.some.inj h)
      simp

/-- Reads characters up to the closing quotation mark, after those in `before`, last first. -/
def closing? (before : List Char) : List Char → Option (List Char × List Char)
  | '"' :: rest => some (before.reverse, rest)
  | text =>
    match _h : character? text with
    | none => none
    | some (c, rest) => closing? (c :: before) rest
termination_by text => text.length
decreasing_by exact length_of_character? _h

/-- Reads what follows the opening quotation mark of a string literal, up to the closing one. -/
def contents? (text : List Char) : Option (List Char × List Char) :=
  closing? [] text

/-- Reading up to the closing quotation mark shortens the text. -/
theorem length_of_closing? {before text found rest : List Char}
    (h : closing? before text = some (found, rest)) : rest.length < text.length := by
  fun_induction closing? before text with
  | case1 before rest =>
    obtain ⟨-, rfl⟩ := Prod.mk.inj (Option.some.inj h)
    simp
  | case2 => simp at h
  | case3 before text hopen c rest hread ih =>
    have := length_of_character? hread
    have := ih h
    omega

/-- A string and what follows it are together shorter than the text they were read from. -/
theorem length_add_of_closing? {before text found rest : List Char}
    (h : closing? before text = some (found, rest)) :
    found.length + rest.length < before.length + text.length := by
  fun_induction closing? before text with
  | case1 before rest =>
    obtain ⟨rfl, rfl⟩ := Prod.mk.inj (Option.some.inj h)
    simp only [List.length_reverse, List.length_cons]
    omega
  | case2 => simp at h
  | case3 before text hopen c rest hread ih =>
    have hshorter := length_of_character? hread
    have := ih h
    rw [List.length_cons] at this
    omega

/-- How a character is written inside a string literal. -/
def escaped (c : Char) : List Char :=
  if c = '"' then ['\\', '"']
  else if c = '\\' then ['\\', '\\']
  else if c = '\x08' then ['\\', 'b']
  else if c = '\t' then ['\\', 't']
  else if c = '\n' then ['\\', 'n']
  else if c = '\x0C' then ['\\', 'f']
  else if c = '\r' then ['\\', 'r']
  else if c < ' ' then
    ['\\', 'u', '0', '0', Nat.digitChar (c.toNat / 16), Nat.digitChar (c.toNat % 16)]
  else [c]

/-- The string literal of a text. -/
def literal (s : String) : List Char :=
  '"' :: (s.toList.flatMap escaped ++ ['"'])

end LoginService.Json.Quoted
