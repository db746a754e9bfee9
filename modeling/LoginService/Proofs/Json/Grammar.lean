import LoginService.Json.Value

/-!
# The grammar of JSON

The productions of the JSON grammar as inductive relations between what is written and the text that
writes it. They are stated over characters and without reference to how a text is read. A derivation
fixes the value, so the grammar also says what an escape, a numeral or a repeated name means.
-/

namespace LoginService.Json

/-- `ws`: any number of spaces, tabs, line feeds and carriage returns. -/
def Blanks (text : List Char) : Prop :=
  ∀ c ∈ text, c = ' ' ∨ c = '\t' ∨ c = '\n' ∨ c = '\r'

namespace Numeral

/-- `1*DIGIT`: one or more decimal digits. -/
def DigitRun (digits : List Char) : Prop :=
  digits ≠ [] ∧ ∀ c ∈ digits, c.isDigit

/-- `int`: a zero alone, or digits that begin with another one. -/
inductive WholeSpelledBy : List Char → Prop where
  | zero : WholeSpelledBy ['0']
  | positive {first : Char} {digits : List Char} (hfirst : first.isDigit) (hzero : first ≠ '0')
      (hdigits : ∀ c ∈ digits, c.isDigit) : WholeSpelledBy (first :: digits)

/-- `[ frac ]`: nothing, or a point and one or more digits. -/
inductive FractionSpelledBy : List Char → List Char → Prop where
  | absent : FractionSpelledBy [] []
  | present {digits : List Char} (h : DigitRun digits) : FractionSpelledBy digits ('.' :: digits)

/-- `[ exp ]`: nothing, or a mark of either case, a sign at choice, and one or more digits. -/
inductive ExponentSpelledBy : Option Exponent → List Char → Prop where
  | absent : ExponentSpelledBy none []
  | unsigned {mark : Char} {digits : List Char} (hmark : mark = 'e' ∨ mark = 'E')
      (h : DigitRun digits) : ExponentSpelledBy (some ⟨false, digits⟩) (mark :: digits)
  | plus {mark : Char} {digits : List Char} (hmark : mark = 'e' ∨ mark = 'E')
      (h : DigitRun digits) : ExponentSpelledBy (some ⟨false, digits⟩) (mark :: '+' :: digits)
  | minus {mark : Char} {digits : List Char} (hmark : mark = 'e' ∨ mark = 'E')
      (h : DigitRun digits) : ExponentSpelledBy (some ⟨true, digits⟩) (mark :: '-' :: digits)

/-- `number = [ minus ] int [ frac ] [ exp ]` -/
inductive SpelledBy (n : Numeral) : List Char → Prop where
  | mk {fraction exponent : List Char} (hwhole : WholeSpelledBy n.whole)
      (hfraction : FractionSpelledBy n.fraction fraction)
      (hexponent : ExponentSpelledBy n.exponent exponent) :
      SpelledBy n ((if n.negative then ['-'] else []) ++ n.whole ++ fraction ++ exponent)

end Numeral

namespace Quoted

/-- `HEXDIG`: a hexadecimal digit of either case, by its value. -/
def HexDigit (n : Nat) (c : Char) : Prop :=
  ['0', '1', '2', '3', '4', '5', '6', '7', '8', '9', 'a', 'b', 'c', 'd', 'e', 'f'][n]? = some c ∨
    ['0', '1', '2', '3', '4', '5', '6', '7', '8', '9', 'A', 'B', 'C', 'D', 'E', 'F'][n]? = some c

instance (n : Nat) (c : Char) : Decidable (HexDigit n c) :=
  inferInstanceAs (Decidable (_ ∨ _))

/-- `4HEXDIG`: a code unit of 16 bits, first digit first. -/
inductive UnitSpelledBy (unit : Nat) : List Char → Prop where
  | mk {i j k l : Nat} {a b c d : Char} (ha : HexDigit i a) (hb : HexDigit j b) (hc : HexDigit k c)
      (hd : HexDigit l d) (hunit : unit = i * 4096 + j * 256 + k * 16 + l) :
      UnitSpelledBy unit [a, b, c, d]

/-- The short escapes: what stands after the backslash, and the character. -/
def shortEscapes : List (Char × Char) :=
  [('"', '"'), ('\\', '\\'), ('/', '/'), ('b', '\x08'), ('f', '\x0C'), ('n', '\n'), ('r', '\r'),
    ('t', '\t')]

/-- `char`: a character of a string is written as itself unless it is a quotation mark, a backslash
or below U+0020, by its short escape, or by its one or two code units of 16 bits. -/
inductive CharSpelledBy (c : Char) : List Char → Prop where
  | raw (hquote : c ≠ '"') (hbackslash : c ≠ '\\') (hcontrol : 0x20 ≤ c.toNat) :
      CharSpelledBy c [c]
  | short {letter : Char} (h : (letter, c) ∈ shortEscapes) : CharSpelledBy c ['\\', letter]
  | unit {digits : List Char} (h : UnitSpelledBy c.toNat digits) :
      CharSpelledBy c ('\\' :: 'u' :: digits)
  | surrogates {high low : Nat} {first second : List Char}
      (hhigh : 0xD800 ≤ high ∧ high ≤ 0xDBFF) (hlow : 0xDC00 ≤ low ∧ low ≤ 0xDFFF)
      (hc : c.toNat = 0x10000 + (high - 0xD800) * 0x400 + (low - 0xDC00))
      (hfirst : UnitSpelledBy high first) (hsecond : UnitSpelledBy low second) :
      CharSpelledBy c ('\\' :: 'u' :: (first ++ '\\' :: 'u' :: second))

/-- `*char`: the characters of a string, one after another. -/
inductive CharsSpelledBy : List Char → List Char → Prop where
  | nil : CharsSpelledBy [] []
  | cons {c : Char} {cs text rest : List Char} (hc : CharSpelledBy c text)
      (hcs : CharsSpelledBy cs rest) : CharsSpelledBy (c :: cs) (text ++ rest)

/-- `string = quotation-mark *char quotation-mark` -/
inductive SpelledBy (s : String) : List Char → Prop where
  | mk {text : List Char} (h : CharsSpelledBy s.toList text) : SpelledBy s ('"' :: (text ++ ['"']))

end Quoted

namespace Value

mutual

/-- `value`. A numeral stands for the number that it is read as; it has no value if that is out of
range. -/
inductive SpelledBy : Value → List Char → Prop where
  | null : SpelledBy .null ['n', 'u', 'l', 'l']
  | true : SpelledBy (.bool true) ['t', 'r', 'u', 'e']
  | false : SpelledBy (.bool false) ['f', 'a', 'l', 's', 'e']
  | number {numeral : Numeral} {n : Number} {text : List Char} (hspelled : numeral.SpelledBy text)
      (hnumber : numeral.number? = some n) : SpelledBy (.number n) text
  | string {s : String} {text : List Char} (h : Quoted.SpelledBy s text) :
      SpelledBy (.string s) text
  | emptyArray {blanks : List Char} (h : Blanks blanks) :
      SpelledBy (.array []) ('[' :: (blanks ++ [']']))
  | array {items : List Value} {text : List Char} (h : ItemsSpelledBy items text) :
      SpelledBy (.array items) ('[' :: (text ++ [']']))
  | emptyObject {blanks : List Char} (h : Blanks blanks) :
      SpelledBy (.object []) ('\x7b' :: (blanks ++ ['\x7d']))
  | object {members : List (String × Value)} {text : List Char}
      (h : MembersSpelledBy members text) :
      SpelledBy (.object members) ('\x7b' :: (text ++ ['\x7d']))

/-- `value *( value-separator value )`: one or more items with blanks around each. -/
inductive ItemsSpelledBy : List Value → List Char → Prop where
  | last {v : Value} {before text after : List Char} (hbefore : Blanks before)
      (hv : SpelledBy v text) (hafter : Blanks after) :
      ItemsSpelledBy [v] (before ++ text ++ after)
  | more {v : Value} {items : List Value} {before text after rest : List Char}
      (hbefore : Blanks before) (hv : SpelledBy v text) (hafter : Blanks after)
      (hitems : ItemsSpelledBy items rest) :
      ItemsSpelledBy (v :: items) (before ++ text ++ after ++ ',' :: rest)

/-- `member *( value-separator member )`: one or more members with blanks around each name and each
value. -/
inductive MembersSpelledBy : List (String × Value) → List Char → Prop where
  | last {name : String} {v : Value} {before key colon between text after : List Char}
      (hbefore : Blanks before) (hname : Quoted.SpelledBy name key) (hcolon : Blanks colon)
      (hbetween : Blanks between) (hv : SpelledBy v text) (hafter : Blanks after) :
      MembersSpelledBy [(name, v)] (before ++ key ++ colon ++ ':' :: (between ++ text ++ after))
  | more {name : String} {v : Value} {members : List (String × Value)}
      {before key colon between text after rest : List Char}
      (hbefore : Blanks before) (hname : Quoted.SpelledBy name key) (hcolon : Blanks colon)
      (hbetween : Blanks between) (hv : SpelledBy v text) (hafter : Blanks after)
      (hmembers : MembersSpelledBy members rest) :
      MembersSpelledBy ((name, v) :: members)
        (before ++ key ++ colon ++ ':' :: (between ++ text ++ after ++ ',' :: rest))

end

mutual

/-- How many containers are open at once in the value, itself counted. -/
def depth : Value → Nat
  | .array items => itemsDepth items + 1
  | .object members => membersDepth members + 1
  | _ => 0

/-- The greatest depth among items. -/
def itemsDepth : List Value → Nat
  | [] => 0
  | v :: items => max v.depth (itemsDepth items)

/-- The greatest depth among the values of members. -/
def membersDepth : List (String × Value) → Nat
  | [] => 0
  | (_, v) :: members => max v.depth (membersDepth members)

end

/-- `JSON-text = ws value ws`, with at most 127 containers open at once. -/
inductive WrittenBy (v : Value) : List Char → Prop where
  | mk {before text after : List Char} (hbefore : Blanks before) (hv : v.SpelledBy text)
      (hafter : Blanks after) (hdepth : v.depth ≤ 127) : WrittenBy v (before ++ text ++ after)

end Value

end LoginService.Json
