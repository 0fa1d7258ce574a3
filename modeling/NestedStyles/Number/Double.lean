/-!
# Double-precision numbers

A finite double is a whole number of units of 2⁻¹⁰⁷⁴, the smallest one above zero, so a sum, a product with a whole
number or a comparison is exact arithmetic on integers followed by one rounding. Zero has no sign here.

- `Double.nearest`: the double next to a quotient; halfway cases go to the even neighbour.
- `Double.ofDecimal`: the double next to a decimal number.
- `Double.channel?`: the color channel 0 to 255 of a fraction.
-/

namespace NestedStyles

inductive Double where
  | finite (units : Int)
  | infinite (negative : Bool)
  | nan
deriving DecidableEq, Repr

namespace Double

/-- The number one in units. -/
def one : Nat := Nat.pow 2 1074

/-- One half in units. -/
def half : Nat := Nat.pow 2 1073

/-- The magnitude in units from which on a double is infinite, 2¹⁰²⁴. -/
def limit : Nat := Nat.pow 2 2098

/-! ## Rounding -/

/-- The whole number next to a quotient; of two that are equally near, the even one. -/
def roundDiv (num den : Nat) : Nat :=
  let q := num / den
  let r := num % den
  if 2 * r < den then q else if den < 2 * r then q + 1 else q + q % 2

/-- The distance between neighbouring doubles around a quotient, in units. Numbers have 53 significant bits, and below
2⁵³ units every whole number of units is a double. -/
def spacing (num den : Nat) : Nat := Nat.pow 2 ((num / den).log2 - 52)

/-- The quotient rounded to a number that a double of unlimited range could hold. -/
def nearest (num den : Nat) : Nat := roundDiv num (den * spacing num den) * spacing num den

/-- The double next to a quotient in units, with the sign given. -/
def round (negative : Bool) (num den : Nat) : Double :=
  let magnitude := nearest num den
  if magnitude < limit then finite (if negative then -magnitude else magnitude) else infinite negative

def ofInt (units : Int) : Double := round (decide (units < 0)) units.natAbs 1

/-- The double next to `digits · 10 ^ exponent`. A number of 10⁴⁰¹ or more is infinite and one below 10⁻⁴⁰⁰ is zero
whatever its digits are, so these powers are never computed. -/
def ofDecimal (negative : Bool) (digits : Nat) (exponent : Int) : Double :=
  if digits = 0 then finite 0
  else if 400 < exponent then infinite negative
  else if exponent + digits.log2 + 1 < -400 then finite 0
  else round negative (digits * Nat.pow 10 exponent.toNat * one) (Nat.pow 10 (-exponent).toNat)

/-! ## Color channels -/

/-- The whole number next to 255 times the double, halves upward: the product and the sum with a half are rounded to
doubles. There is none if the product is too large; what is not finite counts as zero. -/
def channel? : Double → Option Int
  | finite units =>
    match ofInt (units * 255) with
    | finite product =>
      match ofInt (product + half) with
      | finite sum => some (sum.fdiv one)
      | _ => none
    | _ => none
  | _ => some 0

end Double

end NestedStyles
