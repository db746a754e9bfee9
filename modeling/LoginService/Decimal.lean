/-!
# Decimals and their text

A decimal is written in positional notation, always with a fraction, while its scientific exponent
is between -5 and 15, and in scientific notation otherwise. Zeros at the end of its digits are not
written, so decimals of one value have one text.
-/

namespace LoginService

/-- The decimal `coefficient * 10 ^ exponent`. -/
structure Decimal where
  /-- The digits, read as a natural number. -/
  coefficient : Nat
  /-- The power of ten of the last digit. -/
  exponent : Int

namespace Decimal

/-- The digits without the zeros at their end. Zero keeps one digit. -/
def digits (d : Decimal) : List Char :=
  match ((Nat.toDigits 10 d.coefficient).reverse.dropWhile (· = '0')).reverse with
  | [] => ['0']
  | significant => significant

/-- The power of ten of the first digit. -/
def scientificExponent (d : Decimal) : Int :=
  d.exponent + ((Nat.toDigits 10 d.coefficient).length - 1 : Nat)

/-- Writes digits behind a zero, a point and further zeros. -/
def belowOne (digits : List Char) (zeros : Nat) : List Char :=
  '0' :: '.' :: (List.replicate zeros '0' ++ digits)

/-- Writes digits with a point after the first `count`. Zeros are added where there would be no
digit on one side of the point, or too few. -/
def withPoint (digits : List Char) (count : Nat) : List Char :=
  let fraction := digits.drop count
  digits.take count ++ List.replicate (count - digits.length) '0' ++
    '.' :: (if fraction.isEmpty then ['0'] else fraction)

/-- Writes digits with a point after the first, if there are more, and a signed exponent. -/
def scientific (digits : List Char) (exponent : Int) : List Char :=
  let mantissa := match digits with
    | first :: second :: rest => first :: '.' :: second :: rest
    | _ => digits
  mantissa ++ 'e' :: (if exponent < 0 then '-' else '+') :: Nat.toDigits 10 exponent.natAbs

/-- The text of a decimal. -/
def text (d : Decimal) : List Char :=
  let exponent := d.scientificExponent
  if -5 ≤ exponent ∧ exponent < 0 then belowOne d.digits (-exponent - 1).toNat
  else if 0 ≤ exponent ∧ exponent ≤ 15 then withPoint d.digits (exponent + 1).toNat
  else scientific d.digits exponent

end Decimal

end LoginService
