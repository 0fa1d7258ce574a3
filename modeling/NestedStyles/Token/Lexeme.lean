import NestedStyles.Token
import NestedStyles.Text.Blank

/-!
# From source text to tokens

A source is cut into lexemes from left to right, each as long as its class allows. The first class that fits wins:
comments, blanks, hexadecimal tokens, literals, numbers, identifiers, and for all else a single punctuation character.
So every text can be cut, and nothing of it is lost.

- `Lexeme.first_append`: the first lexeme and the text after it are the source.
- `Lexeme.flatten_all`: the lexemes of a source, one after the other, are the source.
- `Token.ofSource`: the tokens of a source with their positions.
-/

namespace NestedStyles

/-- A piece of the source: `raw` as it is written, `text` and `unit` as its token holds them. -/
structure Lexeme where
  kind : Token.Kind
  raw : List Char
  text : List Char := raw
  unit : List Char := []
deriving DecidableEq, Repr

namespace Lexeme

/-! ## Character classes -/

def isHexDigit (c : Char) : Bool := c.isDigit || ('a' ≤ c && c ≤ 'f') || ('A' ≤ c && c ≤ 'F')

def isNameStart (c : Char) : Bool := c.isAlpha || c == '_'

def isNameChar (c : Char) : Bool := c.isAlpha || c.isDigit || c == '_' || c == '-'

def isNumberChar (c : Char) : Bool := c.isDigit || c == '.'

def isUnitChar (c : Char) : Bool := c.isAlpha || c == '%'

def isSign (c : Char) : Bool := c == '+' || c == '-'

/-- A digit, or a point with a digit after it. -/
def startsDigits : List Char → Bool
  | [] => false
  | c :: cs => c.isDigit || (c == '.' && (cs.head?.any Char.isDigit))

/-- A number begins with its digits, or with a sign directly before them. -/
def startsNumber (c : Char) (cs : List Char) : Bool := startsDigits (c :: cs) || (isSign c && startsDigits cs)

/-! ## The classes of lexemes -/

/-- The longest run of characters in a class. -/
def run (kind : Token.Kind) (p : Char → Bool) (cs : List Char) : Lexeme × List Char :=
  (⟨kind, cs.takeWhile p, cs.takeWhile p, []⟩, cs.dropWhile p)

/-- What follows an opening quote `q`: the interior with each backslash dropped and the character after it kept, the
characters read, and the text after the closing quote. A literal that is never closed reaches to the end, and a
backslash there stands for nothing. -/
def interior (q : Char) : List Char → List Char × List Char × List Char
  | [] => ([], [], [])
  | c :: cs =>
    if c = q then ([], [c], cs)
    else if c = '\\' then
      match cs with
      | [] => ([], [c], [])
      | d :: ds =>
        let (text, raw, rest) := interior q ds
        (d :: text, c :: d :: raw, rest)
    else
      let (text, raw, rest) := interior q cs
      (c :: text, c :: raw, rest)

def literal (q : Char) (cs : List Char) : Lexeme × List Char :=
  let (text, raw, rest) := interior q cs
  (⟨.literal, q :: raw, text, []⟩, rest)

/-- A sign if there is one, all digits and points, and the unit. -/
def number (c : Char) (cs : List Char) : Lexeme × List Char :=
  let (sign, body) := if isSign c then ([c], cs) else ([], c :: cs)
  let digits := body.takeWhile isNumberChar
  let tail := body.dropWhile isNumberChar
  let unit := tail.takeWhile isUnitChar
  (⟨.number, sign ++ digits ++ unit, sign ++ digits, unit⟩, tail.dropWhile isUnitChar)

/-- The first lexeme of `c :: cs`, and the text after it. -/
def first (c : Char) (cs : List Char) : Lexeme × List Char :=
  if c = '-' ∧ cs.head? = some '-' then run .comment (· != '\n') (c :: cs)
  else if Text.isBlank c then run .blank Text.isBlank (c :: cs)
  else if c = '0' ∧ (cs.head? = some 'x' ∨ cs.head? = some 'X') then
    let digits := cs.tail.takeWhile isHexDigit
    (⟨.hex, c :: cs.take 1 ++ digits, c :: cs.take 1 ++ digits, []⟩, cs.tail.dropWhile isHexDigit)
  else if c = '"' ∨ c = '\'' then literal c cs
  else if startsNumber c cs then number c cs
  else if isNameStart c then run .identifier isNameChar (c :: cs)
  else (⟨.punctuation, [c], [c], []⟩, cs)

/-! ## Nothing is lost -/

theorem run_append (kind : Token.Kind) (p : Char → Bool) (cs : List Char) :
    (run kind p cs).1.raw ++ (run kind p cs).2 = cs := List.takeWhile_append_dropWhile

theorem interior_append (q : Char) (cs : List Char) : (interior q cs).2.1 ++ (interior q cs).2.2 = cs := by
  fun_induction interior q cs with
  | case1 => rfl
  | case2 => rfl
  | case3 => rfl
  | case4 d ds text raw rest h _ ih => simpa [h] using ih
  | case5 _ cs _ _ text raw rest h ih => simpa [h] using ih

/-- The quotes and escapes of a literal are kept in its raw text. -/
theorem literal_append (q : Char) (cs : List Char) : (literal q cs).1.raw ++ (literal q cs).2 = q :: cs := by
  simp [literal, interior_append]

theorem number_append (c : Char) (cs : List Char) : (number c cs).1.raw ++ (number c cs).2 = c :: cs := by
  by_cases h : isSign c = true <;> simp [number, h, List.takeWhile_append_dropWhile]

/-- **Nothing is lost**: the raw text of the first lexeme and what follows it are the whole text. -/
theorem first_append (c : Char) (cs : List Char) : (first c cs).1.raw ++ (first c cs).2 = c :: cs := by
  unfold first
  split
  · exact run_append ..
  split
  · exact run_append ..
  split
  · cases cs <;> simp [List.takeWhile_append_dropWhile]
  split
  · exact literal_append c cs
  split
  · exact number_append c cs
  split
  · exact run_append ..
  · rfl

theorem run_raw_ne_nil {kind : Token.Kind} {p : Char → Bool} {c : Char} {cs : List Char} (h : p c = true) :
    (run kind p (c :: cs)).1.raw ≠ [] := by
  simp [run, h]

theorem number_raw_ne_nil {c : Char} {cs : List Char} (h : startsNumber c cs = true) : (number c cs).1.raw ≠ [] := by
  by_cases hs : isSign c = true
  · simp [number, hs]
  · have hc : isNumberChar c = true := by
      simp only [startsNumber, startsDigits, Bool.or_eq_true, Bool.and_eq_true, hs, Bool.false_eq_true, false_and,
        or_false] at h
      rcases h with h | h <;> simp [isNumberChar, h]
    simp [number, hs, hc]

/-- Every lexeme has a character. -/
theorem first_raw_ne_nil (c : Char) (cs : List Char) : (first c cs).1.raw ≠ [] := by
  unfold first
  split
  · next h => exact run_raw_ne_nil (by simp [h.1])
  split
  · next h => exact run_raw_ne_nil h
  split
  · simp
  split
  · simp [literal]
  split
  · next h => exact number_raw_ne_nil h
  split
  · next h => exact run_raw_ne_nil (by simp only [isNameStart, Bool.or_eq_true] at h; simp [isNameChar]; grind)
  · simp

/-- So every lexeme brings the end of the text closer. -/
theorem first_rest_length (c : Char) (cs : List Char) : (first c cs).2.length ≤ cs.length := by
  have happ := congrArg List.length (first_append c cs)
  have hpos := List.length_pos_iff.2 (first_raw_ne_nil c cs)
  simp only [List.length_append, List.length_cons] at happ
  omega

/-! ## All lexemes of a source -/

def all : List Char → List Lexeme
  | [] => []
  | c :: cs => (first c cs).1 :: all (first c cs).2
termination_by cs => cs.length
decreasing_by exact Nat.lt_succ_of_le (first_rest_length c cs)

theorem flatten_all (cs : List Char) : ((all cs).map raw).flatten = cs := by
  fun_induction all cs with
  | case1 => rfl
  | case2 c cs ih => simp [ih, first_append]

/-- The token of a lexeme that begins at `p`. -/
def token (l : Lexeme) (p : Position) : Token := ⟨l.kind, String.ofList l.text, String.ofList l.unit, p⟩

/-- The tokens of consecutive lexemes, of which the first begins at `p`. -/
def place (p : Position) : List Lexeme → List Token
  | [] => []
  | l :: ls => l.token p :: place (p.advance l.raw) ls

end Lexeme

/-- All tokens of a source, blanks and comments included. -/
def Token.ofSource (source : String) : List Token := Lexeme.place {} (Lexeme.all source.toList)

/-- The tokens that the grammar sees. -/
def Token.significant (source : String) : List Token := (Token.ofSource source).filter Token.isSignificant

end NestedStyles
