import LoginService.Json.Number
import LoginService.Json.Quoted

/-!
# JSON tokens

A JSON text is a sequence of tokens with blanks between them. A numeral or a string is one token,
and it carries what it stands for; a numeral out of range is no token.
-/

namespace LoginService.Json

/-- A token of a JSON text. -/
inductive Token where
  | openBrace
  | closeBrace
  | openBracket
  | closeBracket
  | colon
  | comma
  | null
  | bool (b : Bool)
  | number (n : Number)
  | string (s : String)

/-- Whether a character may stand between tokens: space, tab, line feed and carriage return. -/
def isBlank (c : Char) : Bool :=
  c = ' ' || c = '\t' || c = '\n' || c = '\r'

namespace Token

/-- Reads the rest of a string literal. -/
def string? (text : List Char) : Option (Token × List Char) :=
  (Quoted.contents? text).map fun (contents, rest) => (.string (String.ofList contents), rest)

/-- Reads a numeral. -/
def number? (text : List Char) : Option (Token × List Char) := do
  let (numeral, rest) ← Numeral.read? text
  let n ← numeral.number?
  return (.number n, rest)

/-- Reads the token at the front of a text. -/
def read? : List Char → Option (Token × List Char)
  | '\x7b' :: rest => some (.openBrace, rest)
  | '\x7d' :: rest => some (.closeBrace, rest)
  | '[' :: rest => some (.openBracket, rest)
  | ']' :: rest => some (.closeBracket, rest)
  | ':' :: rest => some (.colon, rest)
  | ',' :: rest => some (.comma, rest)
  | '"' :: rest => string? rest
  | 'n' :: 'u' :: 'l' :: 'l' :: rest => some (.null, rest)
  | 't' :: 'r' :: 'u' :: 'e' :: rest => some (.bool true, rest)
  | 'f' :: 'a' :: 'l' :: 's' :: 'e' :: rest => some (.bool false, rest)
  | text => number? text

/-- Reading the rest of a string literal shortens the text. -/
theorem length_of_string? {text rest : List Char} {t : Token}
    (h : string? text = some (t, rest)) : rest.length < text.length := by
  obtain ⟨⟨contents, last⟩, hcontents, hpair⟩ := Option.map_eq_some_iff.mp h
  obtain ⟨-, rfl⟩ := Prod.mk.inj hpair
  exact Quoted.length_of_closing? hcontents

/-- Reading a numeral as a token shortens the text. -/
theorem length_of_number? {text rest : List Char} {t : Token}
    (h : number? text = some (t, rest)) : rest.length < text.length := by
  simp only [number?, Option.bind_eq_bind, Option.bind_eq_some_iff, Option.pure_def,
    Option.some.injEq, Prod.mk.injEq] at h
  obtain ⟨⟨numeral, last⟩, hnumeral, -, -, -, rfl⟩ := h
  exact Numeral.length_of_read? hnumeral

/-- Reading a token shortens the text. -/
theorem length_of_read? {text rest : List Char} {t : Token}
    (h : read? text = some (t, rest)) : rest.length < text.length := by
  unfold read? at h
  split at h
  case h_7 =>
    have := length_of_string? h
    simp only [List.length_cons]
    omega
  case h_11 => exact length_of_number? h
  all_goals
    obtain ⟨-, rfl⟩ := Prod.mk.inj (Option.some.inj h)
    simp only [List.length_cons]
    omega

/-- Reads all tokens of a text, after those in `before`, last first. -/
def scan? (before : List Token) : List Char → Option (List Token)
  | [] => some before.reverse
  | c :: rest =>
    if isBlank c then
      scan? before rest
    else
      match _h : read? (c :: rest) with
      | none => none
      | some (t, rest) => scan? (t :: before) rest
termination_by text => text.length
decreasing_by
  · simp
  · exact length_of_read? _h

/-- The tokens of a text, if it is made of tokens and blanks. -/
def ofText? (text : List Char) : Option (List Token) :=
  scan? [] text

/-- How a token is written. -/
def text : Token → List Char
  | .openBrace => ['\x7b']
  | .closeBrace => ['\x7d']
  | .openBracket => ['[']
  | .closeBracket => [']']
  | .colon => [':']
  | .comma => [',']
  | .null => ['n', 'u', 'l', 'l']
  | .bool true => ['t', 'r', 'u', 'e']
  | .bool false => ['f', 'a', 'l', 's', 'e']
  | .number n => n.text.toList
  | .string s => Quoted.literal s

end Token

end LoginService.Json
