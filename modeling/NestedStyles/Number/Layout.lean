import NestedStyles.Number.Numeral
import NestedStyles.Number.Shortest

/-!
# The text of a number

A number is written without an exponent from 10⁻⁶ up to 10²¹, and otherwise with one digit before the point and a
signed exponent.

- `Decimal.layout`: the text of given digits and exponent.
- `Double.text`: the text of a double by its shortest digits.
- `Double.normalize`: a numeral written in that way.
-/

namespace NestedStyles

/-- The text of `digits · 10 ^ exponent` without its sign. The digits neither begin nor end with a zero. -/
def Decimal.body (digits : List Char) (exponent : Int) : List Char :=
  let count : Int := digits.length
  -- the place of the point, counted from before the first digit
  let point := count + exponent
  if count ≤ point ∧ point ≤ 21 then digits ++ List.replicate exponent.toNat '0'
  else if 0 < point ∧ point ≤ 21 then digits.take point.toNat ++ '.' :: digits.drop point.toNat
  else if -6 < point ∧ point ≤ 0 then '0' :: '.' :: List.replicate (-point).toNat '0' ++ digits
  else
    let mantissa := if digits.length = 1 then digits else digits.take 1 ++ '.' :: digits.drop 1
    mantissa ++ 'e' :: (if 0 < point then '+' else '-') :: Nat.toDigits 10 (point - 1).natAbs

def Decimal.layout (negative : Bool) (digits : List Char) (exponent : Int) : String :=
  String.ofList (if negative then '-' :: Decimal.body digits exponent else Decimal.body digits exponent)

namespace Double

def text : Double → String
  | finite units =>
    if units = 0 then "0"
    else
      let d := (shortest units.natAbs).trimZeros
      Decimal.layout (decide (units < 0)) (Nat.toDigits 10 d.digits) d.exponent
  | infinite negative => if negative then "-Infinity" else "Infinity"
  | nan => "NaN"

/-- The text of the double next to a numeral; text that is no numeral stays as it is. -/
def normalize (s : String) : String :=
  match read? s with
  | some d => d.text
  | none => s

end Double

end NestedStyles
