import NestedStyles.Document
import NestedStyles.Stylesheet
import NestedStyles.Token.Lexeme

/-!
# Compiling a source

A source is cut into tokens, read as a document, and its rules are written as a style sheet. Mistakes in the source
are recorded and skipped. There is no style sheet only if mistakes were found and nothing else; a source with neither
rules nor mistakes has the empty one.

- `compile`: the style sheet and the diagnostics of a source.
- `compileOrRefuse`: the same, but a missing style sheet is a fault, and in strict mode any diagnostic is.
-/

namespace NestedStyles

/-- The width of the indent of declarations, and whether every diagnostic is a reason to refuse. -/
structure Options where
  indent : Nat := 2
  strict : Bool := false
  /-- The widest indent that there is memory for. No process has addresses for more than the default. -/
  room : Nat := 140737488355327
deriving DecidableEq, Repr

def Options.ofIndent (indent : Int) (strict : Bool) : Except Fault Options :=
  if indent < 0 then .error .negativeIndent else .ok { indent := indent.toNat, strict }

/-- What came of a source: the style sheet, if there is one, the diagnostics in the order they were found, the rules,
and how many tokens and outermost blocks there were. -/
structure Compilation where
  stylesheet : Option String
  diagnostics : List Diagnostic
  rules : List Rule
  tokenCount : Nat
  blockCount : Nat
deriving DecidableEq, Repr

namespace Compilation

def succeeded (c : Compilation) : Bool := c.stylesheet.isSome

def messages (c : Compilation) : List String := c.diagnostics.map Diagnostic.message

/-- Two lines that sum the compilation up. -/
def log (c : Compilation) : List String :=
  ["Tokenized LuaCSS source: " ++ toString c.tokenCount ++ " significant tokens",
   "Parsed " ++ toString c.blockCount ++ " top-level block(s) into " ++ toString c.rules.length ++ " rule(s) with "
     ++ toString c.diagnostics.length ++ " diagnostic(s)"]

end Compilation

/-- The style sheet of rules, unless there are diagnostics and nothing else. -/
def stylesheet? (options : Options) (rules : List Rule) (notes : List Diagnostic) : Except Fault (Option String) :=
  if rules.isEmpty && !notes.isEmpty then .ok none
  else (Stylesheet.write options.room options.indent rules).map some

/-- The rules and diagnostics of a document, written out. -/
def assemble (options : Options) (tokenCount : Nat) (blocks : List Block) (notes : List Diagnostic) :
    Except Fault Compilation :=
  let rules := Block.rules blocks
  (stylesheet? options rules notes).map fun stylesheet => ⟨stylesheet, notes, rules, tokenCount, blocks.length⟩

def compile (options : Options) (source : String) : Except Fault Compilation :=
  let tokens := Token.significant source
  let document := Document.read tokens
  document.value >>= fun blocks => assemble options tokens.length blocks document.notes

/-- Whether a compilation counts as failed. -/
def Compilation.isRefused (options : Options) (c : Compilation) : Bool :=
  !c.succeeded || (options.strict && !c.diagnostics.isEmpty)

end NestedStyles
