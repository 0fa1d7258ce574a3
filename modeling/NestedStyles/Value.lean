import NestedStyles.Color
import NestedStyles.Text.Blank

/-!
# Values

A value is the right-hand side of `key = value`. It is written as its tokens, joined so that words stay apart and
signs between operands stand free. It reaches to the next comma, closing brace, `end` or key that stands outside all
brackets.

- `Value.read`: reads a value; the empty text says that there is none, and then nothing is taken.
- `Value.read_suffix`: what it leaves is a suffix of what it was given.
-/

namespace NestedStyles.Value

/-! ## Brackets -/

/-- How many brackets of each sort are open. -/
structure Depth where
  paren : Nat := 0
  bracket : Nat := 0
  brace : Nat := 0
deriving DecidableEq, Repr

namespace Depth

def isZero (d : Depth) : Bool := d.paren == 0 && d.bracket == 0 && d.brace == 0

/-- Count a token. A closing bracket without an opening one changes nothing. -/
def track (d : Depth) (t : Token) : Depth :=
  if t.isMark "(" then { d with paren := d.paren + 1 }
  else if t.isMark ")" then { d with paren := d.paren - 1 }
  else if t.isMark "[" then { d with bracket := d.bracket + 1 }
  else if t.isMark "]" then { d with bracket := d.bracket - 1 }
  else if t.isMark "\x7b" then { d with brace := d.brace + 1 }
  else if t.isMark "\x7d" then { d with brace := d.brace - 1 }
  else d

end Depth

/-- Whether a token that stands outside all brackets ends the value before it. -/
def stops (t : Token) (following : List Token) : Bool :=
  t.isMark "," || t.isMark "\x7d" || t.isNamed "end" || (t.isIdentifier && nextIsMark following "=")

/-! ## Joining tokens -/

def isSign (t : Token) : Bool := t.isMark "+" || t.isMark "-"

def endsOperand (t : Token) : Bool := t.isWordLike || t.isMark ")" || t.isMark "]"

def startsOperand (t : Token) : Bool := t.isWordLike || t.isMark "("

/-- Whether `t` is a sign between two operands. -/
def isBinarySign (previous : Option Token) (t : Token) (following : Option Token) : Bool :=
  isSign t && previous.any endsOperand && following.any startsOperand

/-- Whether a word has to be kept apart from the token before it. -/
def needsGap (previous : Option Token) (t : Token) : Bool :=
  t.isWordLike && previous.any fun p => p.isWordLike || p.isMark ")"

/-- The text with a space at its end, unless it is empty or has one. -/
def spaced (text : String) : String :=
  if text = "" ∨ text.back? = some ' ' then text else text ++ " "

/-- The text of a value after one more token. A sign between operands has a space on both sides, except that none
follows it before `end`. -/
def extend (text : String) (previous : Option Token) (t : Token) (following : Option Token) : String :=
  if isBinarySign previous t following then
    spaced text ++ t.render ++ (if following.any (·.isNamed "end") then "" else " ")
  else if needsGap previous t then text ++ " " ++ t.render
  else text ++ t.render

/-! ## Reading -/

/-- Take tokens up to the end of the value. -/
def gather (depth : Depth) (previous : Option Token) (text : String) : List Token → Parsed String
  | [] => ⟨text, [], []⟩
  | t :: ts =>
    if depth.isZero && stops t ts then ⟨text, t :: ts, []⟩
    else gather (depth.track t) (some t) (extend text previous t ts.head?) ts

/-- Whether the next thing is no value: the key of the next entry, `end` or `function`. -/
def isAbsent (t : Token) (following : List Token) : Bool :=
  (t.isIdentifier && (nextIsMark following "=" || nextIsMark following "\x7b")) || t.isNamed "end"
    || t.isNamed "function"

def read : List Token → Parsed (Except Fault String)
  | [] => ⟨.ok "", [], []⟩
  | t :: ts =>
    if t.isNamed "color" && nextIsMark ts "." then Color.call (t :: ts)
    else if isAbsent t ts then ⟨.ok "", t :: ts, []⟩
    else (gather {} none "" (t :: ts)).map fun text => .ok (Text.trim text)

theorem gather_suffix (depth : Depth) (previous : Option Token) (text : String) (tokens : List Token) :
    (gather depth previous text tokens).rest <:+ tokens := by
  induction tokens generalizing depth previous text with
  | nil => exact List.suffix_refl _
  | cons t ts ih =>
    unfold gather
    split
    · exact List.suffix_refl _
    · exact (ih ..).trans (List.suffix_cons ..)

theorem read_suffix (tokens : List Token) : (read tokens).rest <:+ tokens := by
  unfold read
  split
  · exact List.suffix_refl _
  · split
    · exact (Color.call_suffix _).trans (List.tail_suffix _)
    · split
      · exact List.suffix_refl _
      · exact gather_suffix ..

end NestedStyles.Value
