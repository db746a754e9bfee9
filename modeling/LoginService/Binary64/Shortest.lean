import LoginService.Binary64.Basic
import LoginService.Decimal

/-!
# The shortest decimal of a double

Of the decimals that read back to a double, this file finds one with the fewest digits, and of those
the nearest. In units of 10^-1074 every double is a natural number, so on each decimal grid the
candidates are the two neighbours of that number. The coarsest grid with a candidate that reads back
decides.
-/

namespace LoginService.Binary64

/-- How many units of 10^-1074 make a unit of 2^-1074. -/
def decimalUnits : Nat := Nat.pow 5 1074

/-- Whether `coefficient * 10 ^ place`, in units of 10^-1074, rounds to the magnitude `units`. -/
def readsBack (units coefficient place : Nat) : Bool :=
  roundUnits (coefficient * Nat.pow 10 place) decimalUnits = units

/-- The neighbour of a magnitude among the multiples of `10 ^ place` that reads back to it: the
nearer one, or the other if only that one does. Of two that are equally near the even one comes
first. -/
def neighbour? (units place : Nat) : Option Nat :=
  let exact := units * decimalUnits
  let below := exact / Nat.pow 10 place
  let near := roundDiv exact (Nat.pow 10 place)
  [near, if near = below then below + 1 else below].find? (readsBack units · place)

/-- The places of the last digit if 1, 2, … 17 digits of a number of the given length are kept. -/
def places (length : Nat) : List Nat :=
  (List.range 17).map (length - 1 - ·)

/-- The shortest decimal that reads back to a magnitude. Seventeen digits always suffice; the exact
decimal stands behind them. Zero is `0 * 10 ^ 0`. -/
def shortest (units : Nat) : Decimal :=
  if units = 0 then ⟨0, 0⟩ else
  let exact := units * decimalUnits
  let found := (places (Nat.toDigits 10 exact).length).findSome? fun place =>
    (neighbour? units place).map fun coefficient => ⟨coefficient, place - 1074⟩
  found.getD ⟨exact, -1074⟩

/-- The text of a double: a minus sign if it is negative, and its shortest decimal. -/
def text (a : Binary64) : String :=
  let magnitude := (shortest a.units).text
  String.ofList (if a.negative then '-' :: magnitude else magnitude)

end LoginService.Binary64
