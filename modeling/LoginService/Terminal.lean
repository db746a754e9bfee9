/-!
# Text for a terminal

A printed log must not steer the terminal that shows it. The characters that terminals act upon are
therefore printed as escapes; all others, line feeds and tabs among them, are printed as they are.
-/

namespace LoginService.Terminal

/-- The single characters that a terminal acts upon: bell, backspace, form feed, escape and
delete. -/
def isCommand (c : Char) : Bool :=
  c = '\x07' || c = '\x08' || c = '\x0C' || c = '\x1B' || c = '\x7F'

/-- Whether a character is one of the control characters from U+0080 to U+009F. -/
def isExtendedControl (c : Char) : Bool :=
  0x80 ≤ c.toNat && c.toNat ≤ 0x9F

/-- The two lower-case hexadecimal digits of a character below U+0100. -/
def hexDigits (c : Char) : List Char :=
  [Nat.digitChar (c.toNat / 16), Nat.digitChar (c.toNat % 16)]

/-- How a character is printed. -/
def escaped (c : Char) : List Char :=
  if isCommand c then '\\' :: 'x' :: hexDigits c
  else if isExtendedControl c then '\\' :: 'u' :: '\x7b' :: (hexDigits c ++ ['\x7d'])
  else [c]

/-- How a text is printed. -/
def printed (text : String) : String :=
  String.ofList (text.toList.flatMap escaped)

end LoginService.Terminal
