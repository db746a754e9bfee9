import LoginService.Binary64.Basic

/-!
# Scaling a double by a power of ten

A double is multiplied or divided by a power of ten that is itself rounded to a double. Beyond
`10 ^ 308` there is no such double: a number that is not zero is then too large, or it is divided
again and again until the rest of the power fits.
-/

namespace LoginService.Binary64

/-- The greatest exponent of a power of ten that is a finite double. -/
def greatestPower : Nat := 308

/-- Divides a double by `10 ^ exponent`, by at most `10 ^ 308` at a time. -/
def shrink? (a : Binary64) (exponent : Nat) : Option Binary64 :=
  if exponent ≤ greatestPower then do
    a.div? (← ofNat? (Nat.pow 10 exponent))
  else if a.units = 0 then
    some a
  else do
    let smaller ← a.div? (← ofNat? (Nat.pow 10 greatestPower))
    shrink? smaller (exponent - greatestPower)
termination_by exponent
decreasing_by
  rw [greatestPower] at *
  omega

/-- Multiplies a double by `10 ^ exponent`. -/
def grow? (a : Binary64) (exponent : Nat) : Option Binary64 :=
  if exponent ≤ greatestPower then do
    a.mul? (← ofNat? (Nat.pow 10 exponent))
  else if a.units = 0 then
    some a
  else
    none

/-- Scales a double by `10 ^ exponent`, rounding at each step. -/
def scale? (a : Binary64) (exponent : Int) : Option Binary64 :=
  if 0 ≤ exponent then a.grow? exponent.toNat else a.shrink? exponent.natAbs

end LoginService.Binary64
