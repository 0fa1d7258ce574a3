import NestedStyles.Number.Double
import NestedStyles.Text.Blank
import NestedStyles.Text.DecimalDigit

/-!
# Numerals

The texts that stand for numbers: an optional sign and then digits with an optional point and exponent, or the words
for infinity and for no number. Digits may be of any script, single underscores may stand between two digits, and
blanks around the numeral do not count.

- `Numeral.read?`: the number a text stands for, exactly.
- `Double.read?`: the double next to it.
- `Numeral.readInt?`: whole numbers.
-/

namespace NestedStyles

inductive Numeral where
  | decimal (negative : Bool) (digits : Nat) (exponent : Int)
  | infinite (negative : Bool)
  | nan
deriving DecidableEq, Repr

namespace Numeral

/-- The blanks that may surround a numeral. The information separators are not among them. -/
def isMargin (c : Char) : Bool := Text.isBlank c && !(0x1C ≤ c.toNat && c.toNat ≤ 0x1F)

/-- A digit of any script as the ASCII digit of the same value. -/
def plainDigit (c : Char) : Char :=
  match Text.digitValue? c with
  | some value => Nat.digitChar value
  | none => c

/-- Remove single underscores between two digits; any other underscore makes the text no numeral. -/
def ungroup? (afterDigit : Bool) : List Char → Option (List Char)
  | [] => some []
  | c :: cs =>
    if c = '_' then
      if afterDigit && cs.head?.any Char.isDigit then ungroup? false cs else none
    else (ungroup? c.isDigit cs).map (c :: ·)

/-- The characters of a numeral: margins cut off, plain digits, no underscores. -/
def characters? (s : String) : Option (List Char) :=
  ungroup? false ((Text.stripEnds isMargin s.toList).map plainDigit)

/-- Split off a sign; `true` is for minus. -/
def takeSign : List Char → Bool × List Char
  | '-' :: cs => (true, cs)
  | '+' :: cs => (false, cs)
  | cs => (false, cs)

def value (digits : List Char) : Nat := Nat.ofDigitChars 10 digits 0

/-- What may follow the digits: nothing, or `e` and a whole number. -/
def exponent? : List Char → Option Int
  | [] => some 0
  | e :: cs =>
    let (negative, digits) := takeSign cs
    if (e = 'e' ∨ e = 'E') ∧ digits ≠ [] ∧ digits.all Char.isDigit then
      some (if negative then -(value digits : Int) else value digits)
    else none

/-- Digits with a point before, among or after them, and an exponent. -/
def unsigned? (negative : Bool) (cs : List Char) : Option Numeral :=
  let whole := cs.takeWhile Char.isDigit
  let rest := cs.dropWhile Char.isDigit
  let (fraction, tail) :=
    if rest.head? = some '.' then (rest.tail.takeWhile Char.isDigit, rest.tail.dropWhile Char.isDigit)
    else ([], rest)
  if whole ++ fraction = [] then none
  else (exponent? tail).map fun exponent =>
    decimal negative (value (whole ++ fraction)) (exponent - fraction.length)

def read? (s : String) : Option Numeral := do
  let (negative, cs) := takeSign (← characters? s)
  let word := String.ofList (cs.map Char.toLower)
  if word = "inf" ∨ word = "infinity" then some (infinite negative)
  else if word = "nan" then some nan
  else unsigned? negative cs

/-- The most digits of a whole number that are read. -/
def maxDigits : Nat := 4300

/-- Read a whole number: a sign and digits, without point and exponent. -/
def readInt? (s : String) : Option Int := do
  let (negative, digits) := takeSign (← characters? s)
  if digits ≠ [] ∧ digits.all Char.isDigit ∧ digits.length ≤ maxDigits then
    some (if negative then -(value digits : Int) else value digits)
  else none

def toDouble : Numeral → Double
  | decimal negative digits exponent => Double.ofDecimal negative digits exponent
  | infinite negative => .infinite negative
  | nan => .nan

end Numeral

def Double.read? (s : String) : Option Double := (Numeral.read? s).map Numeral.toDouble

end NestedStyles
