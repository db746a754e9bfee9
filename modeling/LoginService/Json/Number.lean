import LoginService.Binary64.Scale
import LoginService.Binary64.Shortest
import LoginService.Json.Numeral

/-!
# JSON numbers

What a numeral stands for. An integer of 64 bits, signed or unsigned, is kept exactly. Every other
numeral becomes a double: its leading digits that fit 64 bits are gathered into a significand, and
the significand is scaled by the power of ten that remains. The result is close to the numeral, but
not always the nearest double.
-/

namespace LoginService.Json

/-- The number that a numeral stands for. -/
inductive Number where
  /-- An integer from -2^63 to 2^64 - 1. -/
  | integer (n : Int)
  /-- Any other number. -/
  | double (a : Binary64)

/-- The greatest significand, 2^64 - 1. -/
def greatestSignificand : Nat := 18446744073709551615

/-- The greatest magnitude of a negative integer, 2^63. -/
def greatestNegated : Nat := 9223372036854775808

/-- The greatest magnitude of an exponent, 2^31 - 1. -/
def greatestExponent : Nat := 2147483647

/-- The exponent, kept between -2^31 and 2^31 - 1. -/
def saturate (exponent : Int) : Int :=
  max (-greatestExponent - 1) (min exponent greatestExponent)

namespace Numeral

/-- The integer that the numeral spells, if it has neither fraction nor exponent and fits 64 bits.
Minus zero is not an integer. -/
def integer? (n : Numeral) : Option Int :=
  match n.fraction, n.exponent, Digits.gather greatestSignificand 0 n.whole with
  | [], none, (magnitude, []) =>
    if n.negative then
      if magnitude = 0 ∨ greatestNegated < magnitude then none else some (-magnitude)
    else
      some magnitude
  | _, _, _ => none

/-- The leading digits that fit 64 bits, as a number, with the power of ten of the last of them.
After digits before the point were left out, digits behind it are still appended if they fit. -/
def significand (n : Numeral) : Decimal :=
  let (number, leftOut) := Digits.gather greatestSignificand 0 n.whole
  let (number, unused) := Digits.gather greatestSignificand number n.fraction
  ⟨number, leftOut.length - (n.fraction.length - unused.length : Nat)⟩

/-- The magnitude of the double that the numeral stands for; `none` if it is out of range. An
explicit exponent beyond 2^31 - 1 makes the number zero or puts it out of range by its sign. -/
def magnitude? (n : Numeral) : Option Binary64 := do
  let s := n.significand
  let a ← Binary64.ofNat? s.coefficient
  match n.exponent with
  | none => a.scale? s.exponent
  | some e =>
    match Digits.gather greatestExponent 0 e.digits with
    | (shift, []) =>
      a.scale? (saturate (if e.negative then s.exponent - shift else s.exponent + shift))
    | _ => if e.negative ∨ s.coefficient = 0 then some Binary64.zero else none

/-- The number that the numeral stands for; `none` if it is out of range. -/
def number? (n : Numeral) : Option Number :=
  match n.integer? with
  | some i => some (.integer i)
  | none => n.magnitude?.map fun a => .double (a.withSign n.negative)

end Numeral

/-- The decimal digits of an integer, after a minus sign if it is negative. -/
def integerText (n : Int) : String :=
  let digits := Nat.toDigits 10 n.natAbs
  String.ofList (if n < 0 then '-' :: digits else digits)

/-- The text of a number. -/
def Number.text : Number → String
  | .integer n => integerText n
  | .double a => a.text

end LoginService.Json
