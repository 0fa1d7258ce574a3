import NestedStyles.Number.Double

/-!
# Shortest digits

The fewest decimal digits that read back as a given double, and among decimals of that length the nearest one.

- `Double.shortest`: digits and exponent of that decimal.
- `Decimal.trimZeros`: the same decimal without zeros at its end.
-/

namespace NestedStyles

/-- A decimal number `digits · 10 ^ exponent`. -/
structure Decimal where
  digits : Nat
  exponent : Int
deriving DecidableEq, Repr

/-- Move the zeros at the end of the digits into the exponent. -/
def Decimal.trimZeros (d : Decimal) : Decimal :=
  if d.digits ≠ 0 ∧ d.digits % 10 = 0 then Decimal.trimZeros ⟨d.digits / 10, d.exponent + 1⟩ else d
termination_by d.digits
decreasing_by omega

namespace Double

/-- How many digits of a positive double stand before the decimal point. It is negative for a small double: then so
many zeros stand after the point. Every double above zero is at least 10⁻³²⁴. -/
def pointPosition (units : Nat) : Int := ((Nat.toDigits 10 (units * Nat.pow 10 330 / one)).length : Int) - 330

def ReadsBack (units : Nat) (d : Decimal) : Prop := ofDecimal false d.digits d.exponent = finite units

instance (units : Nat) (d : Decimal) : Decidable (ReadsBack units d) :=
  inferInstanceAs (Decidable (_ = _))

/-- Of the two multiples of `10 ^ exponent` around the double, the one that reads back as it; if both do, the nearer
one, and halfway the one whose last digit is even. -/
def neighbour? (units : Nat) (exponent : Int) : Option Decimal :=
  let num := units * Nat.pow 10 (-exponent).toNat
  let den := one * Nat.pow 10 exponent.toNat
  let below : Decimal := ⟨num / den, exponent⟩
  let above : Decimal := ⟨num / den + 1, exponent⟩
  if ReadsBack units below then
    if ReadsBack units above then some ⟨roundDiv num den, exponent⟩ else some below
  else if ReadsBack units above then some above
  else none

/-- All digits of a double: a unit is 5¹⁰⁷⁴ · 10⁻¹⁰⁷⁴. -/
def exact (units : Nat) : Decimal := ⟨units * Nat.pow 5 1074, -1074⟩

/-- The shortest decimal that reads back: with one digit, two digits, and so on up to 17. -/
def shortest (units : Nat) : Decimal :=
  ((List.range 17).findSome? fun n : Nat => neighbour? units (pointPosition units - (n + 1))).getD (exact units)

end Double

end NestedStyles
