import NestedStyles.Text.Printable

/-!
# Quoted display of a text

A text in quotes, with the characters that cannot be shown written as escapes. Apostrophes are the usual quotes;
double quotes are used for a text that has an apostrophe and no double quote.
-/

namespace NestedStyles.Text

/-- The last `width` hexadecimal digits of `n`, small letters, filled up with zeros. -/
def hexDigits (width n : Nat) : String :=
  let digits := Nat.toDigits 16 n
  String.ofList (List.replicate (width - digits.length) '0' ++ digits)

/-- One character inside quotes `q`: the quote, the backslash and the three usual controls get a backslash, what is
not printable is written by its code point in two, four or eight digits. -/
def quotedChar (q c : Char) : String :=
  if c = q ∨ c = '\\' then String.ofList ['\\', c]
  else if c = '\n' then "\\n"
  else if c = '\r' then "\\r"
  else if c = '\t' then "\\t"
  else if isPrintable c then String.singleton c
  else if c.toNat < 0x100 then "\\x" ++ hexDigits 2 c.toNat
  else if c.toNat < 0x10000 then "\\u" ++ hexDigits 4 c.toNat
  else "\\U" ++ hexDigits 8 c.toNat

def quoteFor (s : String) : Char :=
  if s.toList.contains '\'' && !s.toList.contains '"' then '"' else '\''

def quoted (s : String) : String :=
  let q := quoteFor s
  String.singleton q ++ String.join (s.toList.map (quotedChar q)) ++ String.singleton q

end NestedStyles.Text
