import NestedStyles.Document
import NestedStyles.Proofs.Color.Notation
import NestedStyles.Proofs.Value.Joined

/-!
# The grammar of documents

Syntax trees of documents without mistakes. A tree holds the tokens it is written with, in the order in which they
stand, so that each token may come from any place of a source; what makes them a document is in the types.

- `Grammar.Document`: a sequence of blocks under a name or a bracketed literal.
- `Grammar.Document.tokens`: the tokens of a document.
- `Grammar.Document.blocks`: the blocks that it stands for.
- `Grammar.Document.Thinned`: the tokens of a document with some of the commas behind its entries left out.
-/

namespace NestedStyles.Grammar

/-! ## Single tokens -/

abbrev Mark (mark : String) : Type := { t : Token // t.isMark mark = true }

abbrev Word (name : String) : Type := { t : Token // t.isNamed name = true }

abbrev Name : Type := { t : Token // t.isIdentifier = true }

abbrev Literal : Type := { t : Token // t.kind = .literal }

/-! ## Expressions -/

/-- Tokens that are passed through as one value. The conditions on the first of them keep it apart from a block, a
function, a color, a missing value and a key. -/
structure Plain where
  first : Token
  more : List Token
  isMark_brace : first.isMark "\x7b" = false
  isNamed_end : first.isNamed "end" = false
  isNamed_function : first.isNamed "function" = false
  not_color : (first.isNamed "color" && nextIsMark more ".") = false
  not_key : (first.isIdentifier && (nextIsMark more "=" || nextIsMark more "\x7b")) = false
  unbroken : Value.isUnbroken {} (first :: more) = true

/-- A call that gives a color and nothing to remark: the name is known, there are as many arguments as it asks for, and
no channel is too large to be computed. -/
structure ColorCall where
  word : Word "color"
  dot : Mark "."
  name : Name
  opening : Mark "("
  inside : List Token
  closing : Mark ")"
  text : String
  inside_ne : inside.all (fun t => !t.isMark ")") = true
  remarks_eq : Color.remarks name.1.text (Color.arguments inside).length = []
  denotes : Color.Denotes name.1.text (Color.arguments inside) text

inductive Expression where
  | plain (v : Plain)
  | color (c : ColorCall)

namespace Expression

def tokens : Expression → List Token
  | .plain v => v.first :: v.more
  | .color c => c.word.1 :: c.dot.1 :: c.name.1 :: c.opening.1 :: (c.inside ++ [c.closing.1])

/-- The text that an expression stands for. -/
def text : Expression → String
  | .plain v => Value.join none (v.first :: v.more)
  | .color c => c.text

end Expression

/-! ## Entries -/

/-- `key = value ,` -/
structure Pair where
  key : Name
  equals : Mark "="
  value : Expression
  comma : Mark ","

namespace Pair

def tokens (p : Pair) : List Token := p.key.1 :: p.equals.1 :: (p.value.tokens ++ [p.comma.1])

def declaration (p : Pair) : Declaration := ⟨Selector.hyphenate p.key.1.text, p.value.text⟩

end Pair

/-- A pair inside a function, where `end` is no key. -/
structure InnerPair extends Pair where
  isNamed_end : key.1.isNamed "end" = false

/-- What a block stands under. -/
inductive Head where
  | name (key : Name)
  | bracketed (opening : Mark "[") (literal : Literal) (closing : Mark "]")

namespace Head

def tokens : Head → List Token
  | .name key => [key.1]
  | .bracketed opening literal closing => [opening.1, literal.1, closing.1]

/-- The selector of an outermost block. -/
def selector : Head → String
  | .name key => key.1.text
  | .bracketed _ literal _ => literal.1.text

/-- The selector of a block inside another. -/
def resolve (parent : String) : Head → String
  | .name key => Selector.resolve parent (Selector.hyphenate key.1.text)
  | .bracketed _ literal _ => Selector.resolve parent literal.1.text

end Head

/-- An entry of a block: a pair, a nested block, or a function literal under a pseudo key. -/
inductive Item where
  | pair (p : Pair)
  | nested (head : Head) (equals : Mark "=") (opening : Mark "\x7b") (items : List Item) (closing : Mark "\x7d")
      (comma : Mark ",")
  | function (key : { t : Name // Selector.isPseudo t.1.text = true }) (equals : Mark "=") (word : Word "function")
      (opening : Mark "(") (closing : Mark ")") (pairs : List InnerPair) (stop : Word "end") (comma : Mark ",")

namespace Item

mutual

def tokens : Item → List Token
  | .pair p => p.tokens
  | .nested head equals opening items closing comma =>
    head.tokens ++ equals.1 :: opening.1 :: (tokensAll items ++ [closing.1, comma.1])
  | .function key equals word opening closing pairs stop comma =>
    key.1.1 :: equals.1 :: word.1 :: opening.1 :: closing.1 :: (pairs.flatMap (·.tokens) ++ [stop.1, comma.1])

def tokensAll : List Item → List Token
  | [] => []
  | i :: is => i.tokens ++ tokensAll is

end

/-- The declaration that an entry adds to the block around it. -/
def declaration? : Item → Option Declaration
  | .pair p => some p.declaration
  | .nested .. => none
  | .function .. => none

mutual

/-- The block that an entry adds to a block with selector `parent`. -/
def block? (parent : String) : Item → Option Block
  | .pair _ => none
  | .nested head _ _ items _ _ =>
    some ⟨head.resolve parent, items.filterMap declaration?, blocks (head.resolve parent) items⟩
  | .function key _ _ _ _ pairs _ _ => some ⟨Selector.pseudo parent key.1.1.text, pairs.map (·.declaration), []⟩

def blocks (parent : String) : List Item → List Block
  | [] => []
  | i :: is => (i.block? parent).toList ++ blocks parent is

end

end Item

/-! ## Documents -/

/-- `head = block`, outside all blocks. -/
structure Statement where
  head : Head
  equals : Mark "="
  opening : Mark "\x7b"
  items : List Item
  closing : Mark "\x7d"

namespace Statement

def tokens (s : Statement) : List Token :=
  s.head.tokens ++ s.equals.1 :: s.opening.1 :: (Item.tokensAll s.items ++ [s.closing.1])

def block (s : Statement) : Block :=
  ⟨s.head.selector, s.items.filterMap Item.declaration?, Item.blocks s.head.selector s.items⟩

end Statement

abbrev Document : Type := List Statement

namespace Document

def tokens (d : Document) : List Token := d.flatMap Statement.tokens

def blocks (d : Document) : List Block := d.map Statement.block

end Document

/-! ## Commas left out -/

namespace Expression

/-- Whether the last token is a sign, which looks for an operand behind the value. -/
def endsInSign : Expression → Bool
  | .plain v => (v.first :: v.more).getLast?.any Value.isSign
  | .color _ => false

/-- A value needs no comma to be told apart from what comes next, unless a bracketed head follows a plain value. -/
def Apart : Expression → Option Head → Prop
  | .plain _, some (.bracketed ..) => False
  | _, _ => True

end Expression

/-- A pair without its comma. -/
def Pair.bare (p : Pair) : List Token := p.key.1 :: p.equals.1 :: p.value.tokens

/-- The pairs of a function, with the commas behind any of them left out. Behind a sign the comma stays. -/
inductive InnerPair.ThinnedAll : List InnerPair → List Token → Prop
  | nil : ThinnedAll [] []
  | keep {ps : List InnerPair} {ts : List Token} (p : InnerPair) (hps : ThinnedAll ps ts) :
      ThinnedAll (p :: ps) (p.bare ++ p.comma.1 :: ts)
  | drop {ps : List InnerPair} {ts : List Token} (p : InnerPair) (hsign : p.value.endsInSign = false)
      (hps : ThinnedAll ps ts) : ThinnedAll (p :: ps) (p.bare ++ ts)

namespace Item

def comma : Item → Mark ","
  | .pair p => p.comma
  | .nested _ _ _ _ _ comma => comma
  | .function _ _ _ _ _ _ _ comma => comma

/-- What the first entry stands under, if it is a block. -/
def head? : List Item → Option Head
  | .nested head .. :: _ => some head
  | _ => none

variable (may : Expression → Option Head → Prop)

/-- Whether the comma behind an entry may go: `may` decides for a value with the head that comes next. -/
def MayDrop : Item → Option Head → Prop
  | .pair p, next => p.value.endsInSign = false ∧ may p.value next
  | .nested .., _ => True
  | .function .., _ => True

mutual

/-- An entry without its own comma, with some of the commas inside left out. -/
inductive Thinned : Item → List Token → Prop
  | pair (p : Pair) : Thinned (.pair p) p.bare
  | nested {items : List Item} {ts : List Token} (head : Head) (equals : Mark "=") (opening : Mark "\x7b")
      (hitems : ThinnedAll items ts) (closing : Mark "\x7d") (comma : Mark ",") :
      Thinned (.nested head equals opening items closing comma)
        (head.tokens ++ equals.1 :: opening.1 :: (ts ++ [closing.1]))
  | function {pairs : List InnerPair} {ts : List Token} (key : { t : Name // Selector.isPseudo t.1.text = true })
      (equals : Mark "=") (word : Word "function") (opening : Mark "(") (closing : Mark ")")
      (hpairs : InnerPair.ThinnedAll pairs ts) (stop : Word "end") (comma : Mark ",") :
      Thinned (.function key equals word opening closing pairs stop comma)
        (key.1.1 :: equals.1 :: word.1 :: opening.1 :: closing.1 :: (ts ++ [stop.1]))

/-- Entries with some of the commas behind and inside them left out. -/
inductive ThinnedAll : List Item → List Token → Prop
  | nil : ThinnedAll [] []
  | keep {i : Item} {is : List Item} {ts us : List Token} (hi : Thinned i ts) (his : ThinnedAll is us) :
      ThinnedAll (i :: is) (ts ++ i.comma.1 :: us)
  | drop {i : Item} {is : List Item} {ts us : List Token} (hmay : i.MayDrop may (head? is)) (hi : Thinned i ts)
      (his : ThinnedAll is us) : ThinnedAll (i :: is) (ts ++ us)

end

end Item

/-- A block with its head, with some of the commas inside left out. -/
inductive Statement.Thinned (may : Expression → Option Head → Prop) (s : Statement) : List Token → Prop
  | block {ts : List Token} (hitems : Item.ThinnedAll may s.items ts) :
      Thinned may s (s.head.tokens ++ s.equals.1 :: s.opening.1 :: (ts ++ [s.closing.1]))

/-- A document, with the commas behind some entries left out: any comma may go where `may` permits it for the value
before it and the head behind it, except behind a sign. -/
inductive Document.Thinned (may : Expression → Option Head → Prop) : Document → List Token → Prop
  | nil : Thinned may [] []
  | cons {s : Statement} {d : Document} {ts us : List Token} (hs : s.Thinned may ts) (hd : Thinned may d us) :
      Thinned may (s :: d) (ts ++ us)

end NestedStyles.Grammar
