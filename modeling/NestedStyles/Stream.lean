import NestedStyles.Document
import NestedStyles.Token.Lexeme

/-!
# Streams of tokens

A stream stands at a position in a fixed list of tokens and collects diagnostics. It can be asked to look around, to
step over tokens, and to read any part of the grammar from where it stands. A request that ends in a fault keeps what
it has taken and recorded.

- `Stream.perform`: one request.
- `Stream.performAll`: requests one after the other.
-/

namespace NestedStyles

structure Stream where
  tokens : List Token
  position : Nat := 0
  notes : List Diagnostic := []
deriving DecidableEq, Repr

namespace Stream

def ofSource (source : String) : Stream := { tokens := Token.significant source }

/-- The tokens from the position on. -/
def rest (s : Stream) : List Token := s.tokens.drop s.position

def isAtEnd (s : Stream) : Bool := s.tokens.length ≤ s.position

/-- The token at a distance from the position. Behind the last token there is none. Before the first token the list
is counted from its end, and before that there is nothing to look at. -/
def peek (s : Stream) (offset : Int) : Except Fault (Option Token) :=
  let i : Int := s.position + offset
  let n : Int := s.tokens.length
  if 0 ≤ i then .ok s.tokens[i.toNat]?
  else if -n ≤ i then .ok s.tokens[(n + i).toNat]?
  else .error .beforeFirstToken

/-- The stream after what was read from its position on. -/
def advance {α : Type} (s : Stream) (p : Parsed α) : Stream :=
  { s with position := s.tokens.length - p.rest.length, notes := s.notes ++ p.notes }

def record (s : Stream) (d : Diagnostic) : Stream := { s with notes := s.notes ++ [d] }

/-! ## Requests -/

/-- What a stream can be asked. An absent name stands for any identifier. A report is about a token, not necessarily one
of the stream, or about none. -/
inductive Request where
  | peek (offset : Int)
  | next
  | isAtEnd
  | isMark (mark : String) (offset : Int)
  | isIdentifier (name : Option String) (offset : Int)
  | expect (wanted : String)
  | skipComma
  | report (kind : Problem.Kind) (message : String) (token : Option Token)
  | value
  | color
  | document
  | block (selector : String)
  | functionBlock
deriving DecidableEq, Repr

inductive Reply where
  | nothing
  | token (t : Option Token)
  | truth (b : Bool)
  | text (s : String)
  | blocks (bs : List Block)
  | body (b : Block)
  | declarations (ds : List Declaration)
deriving DecidableEq, Repr

/-- Whether a token is an identifier, of the given name if one is given. -/
def matchesName (name : Option String) (t : Token) : Bool :=
  match name with
  | none => t.isIdentifier
  | some name => t.isNamed name

/-- Read a part of the grammar from the position on. -/
def reading {α : Type} (s : Stream) (read : List Token → Parsed (Except Fault α)) (reply : α → Reply) :
    Except Fault Reply × Stream :=
  let p := read s.rest
  (p.value.map reply, s.advance p)

def perform (s : Stream) : Request → Except Fault Reply × Stream
  | .peek offset => ((s.peek offset).map .token, s)
  | .next => (.ok (.token s.rest.head?), s.advance ⟨(), s.rest.tail, []⟩)
  | .isAtEnd => (.ok (.truth s.isAtEnd), s)
  | .isMark mark offset => ((s.peek offset).map fun t => .truth (t.any (·.isMark mark)), s)
  | .isIdentifier name offset => ((s.peek offset).map fun t => .truth (t.any (matchesName name)), s)
  | .expect wanted =>
    let p := NestedStyles.expect wanted s.rest
    (.ok (.token p.value), s.advance p)
  | .skipComma => (.ok .nothing, s.advance ⟨(), NestedStyles.skipComma s.rest, []⟩)
  | .report kind message token => (.ok .nothing, s.record (.about (.remark kind message) token))
  | .value => s.reading Value.read .text
  | .color => s.reading Color.call .text
  | .document => s.reading Document.read .blocks
  | .block selector => s.reading (Block.read selector) .body
  | .functionBlock => s.reading Declaration.readFunction .declarations

/-- The replies to a sequence of requests, each with the stream after it. -/
def performAll (s : Stream) : List Request → List (Except Fault Reply × Stream)
  | [] => []
  | r :: rs => s.perform r :: (s.perform r).2.performAll rs

end Stream

end NestedStyles
