import NestedStyles.Text.LowerCase

/-!
# Tokens

A token has a kind, its text, the unit of a number, and the position where it begins. Positions count characters;
only the line feed begins a new line.

- `Position.advance_append`: walking over two texts is walking over the first and then over the second.
-/

namespace NestedStyles

/-- A line and a column, both counted from one. -/
structure Position where
  line : Nat := 1
  column : Nat := 1
deriving DecidableEq, Repr, Inhabited

namespace Position

def next (p : Position) (c : Char) : Position :=
  if c = '\n' then ⟨p.line + 1, 1⟩ else ⟨p.line, p.column + 1⟩

/-- The position after a text that begins at `p`. -/
def advance (p : Position) (cs : List Char) : Position := cs.foldl next p

/-- A text is walked over one character after the other. -/
@[simp]
theorem advance_cons (p : Position) (c : Char) (cs : List Char) : p.advance (c :: cs) = (p.next c).advance cs := rfl

theorem advance_append (p : Position) (as bs : List Char) : p.advance (as ++ bs) = (p.advance as).advance bs :=
  List.foldl_append

end Position

/-- The classes of tokens. A `literal` is a quoted text, a `blank` a run of white space. -/
inductive Token.Kind where
  | comment
  | literal
  | hex
  | number
  | identifier
  | punctuation
  | blank
deriving DecidableEq, Repr, Inhabited

/-- The word by which a listing of tokens names the kind. -/
def Token.Kind.label : Token.Kind → String
  | .comment => "comment"
  | .literal => "string"
  | .hex => "hex"
  | .number => "number"
  | .identifier => "identifier"
  | .punctuation => "punctuation"
  | .blank => "whitespace"

/-- The text of a literal is its interior with the escapes resolved, a hexadecimal token keeps its `0x`, and the text
of a number stops before its unit. -/
structure Token where
  kind : Token.Kind
  text : String
  unit : String := ""
  position : Position := {}
deriving DecidableEq, Repr, Inhabited

namespace Token

/-- Whether `t` is the punctuation `mark`. A literal with the same text is not. -/
def isMark (t : Token) (mark : String) : Bool := t.kind == .punctuation && t.text == mark

def isIdentifier (t : Token) : Bool := t.kind == .identifier

/-- Whether `t` is the identifier `name`. -/
def isNamed (t : Token) (name : String) : Bool := t.kind == .identifier && t.text == name

/-- Identifiers, numbers, literals and hexadecimal tokens: what two of must not touch in the output. -/
def isWordLike (t : Token) : Bool :=
  t.kind == .identifier || t.kind == .number || t.kind == .literal || t.kind == .hex

/-- Tokens that the grammar sees: all but blanks and comments. -/
def isSignificant (t : Token) : Bool := t.kind != .blank && t.kind != .comment

/-! ## The text of a token in the output -/

/-- A color from hexadecimal digits: small letters, filled up with zeros on the left to six digits. -/
def hashColor (digits : List Char) : String :=
  String.ofList ('#' :: (List.replicate (6 - digits.length) '0' ++ digits.map Text.toLower))

/-- The text of a token inside a value: a literal in double quotes, a number with its unit, a hexadecimal token as a
color without its first two characters. -/
def render (t : Token) : String :=
  match t.kind with
  | .literal => "\"" ++ t.text ++ "\""
  | .number => t.text ++ t.unit
  | .hex => hashColor (t.text.toList.drop 2)
  | _ => t.text

/-! ## The spelling of a token in the source -/

/-- The characters of a literal between double quotes. -/
def escape (cs : List Char) : List Char := cs.flatMap fun c => if c = '\\' ∨ c = '"' then ['\\', c] else [c]

/-- One way to write the token in a source. -/
def spelling (t : Token) : String :=
  match t.kind with
  | .literal => String.ofList ('"' :: escape t.text.toList ++ ['"'])
  | _ => t.text ++ t.unit

/-- A mark is punctuation with a given text. -/
theorem isMark_iff {t : Token} {mark : String} : t.isMark mark = true ↔ t.kind = .punctuation ∧ t.text = mark := by
  simp [isMark]

theorem isIdentifier_iff {t : Token} : t.isIdentifier = true ↔ t.kind = .identifier := by
  simp [isIdentifier]

theorem isNamed_iff {t : Token} {name : String} : t.isNamed name = true ↔ t.kind = .identifier ∧ t.text = name := by
  simp [isNamed]

/-- No identifier is a mark. -/
theorem isMark_of_isIdentifier {t : Token} (h : t.isIdentifier = true) (mark : String) : t.isMark mark = false := by
  simp [isMark, isIdentifier_iff.1 h]

/-- An identifier has one name only. -/
theorem isNamed_of_ne {t : Token} {name other : String} (h : t.isNamed name = true) (hne : name ≠ other) :
    t.isNamed other = false := by
  simp [isNamed, (isNamed_iff.1 h).2, hne]

theorem isMark_of_ne {t : Token} {mark other : String} (h : t.isMark mark = true) (hne : mark ≠ other) :
    t.isMark other = false := by
  simp [isMark, (isMark_iff.1 h).2, hne]

theorem isIdentifier_of_isMark {t : Token} {mark : String} (h : t.isMark mark = true) : t.isIdentifier = false := by
  simp [isIdentifier, (isMark_iff.1 h).1]

end Token

end NestedStyles
