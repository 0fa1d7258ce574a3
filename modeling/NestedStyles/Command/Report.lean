import NestedStyles.Command
import NestedStyles.Command.Disk

/-!
# Running a command

A command reads its source file and answers with an exit code, the texts for the two output streams, and perhaps a
file to write. Usage errors are found before the source is read.

- `Invocation.report`: what a command line answers, given what its paths lead to.
- `Disk.run`: a command line run on a disk.
-/

namespace NestedStyles

structure Report where
  exitCode : Nat := 0
  stdout : String := ""
  stderr : String := ""
  /-- The file to write, by its path, and its text. -/
  output : Option (String × String) := none
deriving DecidableEq, Repr

/-- Why there is no report. -/
inductive Stop where
  | usage (u : Command.Usage)
  | fault (f : Fault)
deriving DecidableEq, Repr

/-- Each line with a line feed after it. -/
def unlines (lines : List String) : String := String.join (lines.map (· ++ "\n"))

/-! ## The source file -/

/-- One line feed for every way to end a line. -/
def plainLineEnds : List Char → List Char
  | [] => []
  | '\r' :: '\n' :: cs => '\n' :: plainLineEnds cs
  | '\r' :: cs => '\n' :: plainLineEnds cs
  | c :: cs => c :: plainLineEnds cs

def decodeSource (content : ByteArray) : Except Fault String :=
  match String.fromUTF8? content with
  | some text => .ok (String.ofList (plainLineEnds text.toList))
  | none => .error .notUtf8

def findSource (look : String → Found) (path : String) : Except Command.Usage ByteArray :=
  match look path with
  | .file content => .ok content
  | .folder => .error (.sourceIsFolder path)
  | .absent => .error (.noSuchSource path)

def checkOutput (look : String → Found) (path : String) : Except Command.Usage Unit :=
  match look path with
  | .folder => .error (.outputIsFolder path)
  | _ => .ok ()

/-! ## What the commands print -/

namespace Report

def indented (d : Diagnostic) : String := "  " ++ d.text

def debugLine (message : String) : String := "DEBUG luacss.compiler: " ++ message

/-- The summing-up of a compilation, for those who want it. -/
def logLines (verbose : Bool) (c : Compilation) : List String := if verbose then c.log.map debugLine else []

/-- The text of a style sheet file: a line feed ends it unless it is empty. -/
def sheetText (c : Compilation) : String :=
  match c.stylesheet with
  | none => ""
  | some sheet => if sheet = "" then "" else sheet ++ "\n"

/-- Write the style sheet to the output or, without one, to the standard output. -/
def compile (verbose : Bool) (name : String) (output : Option String) (options : Options) (c : Compilation) :
    Report :=
  let found := logLines verbose c ++ c.diagnostics.map indented
  if c.isRefused options then { exitCode := 1, stderr := unlines (found ++ ["Compilation failed: " ++ name]) }
  else
    match output with
    | none => { stdout := sheetText c, stderr := unlines found }
    | some path =>
      { stderr := unlines (found ++ ["Wrote " ++ toString c.rules.length ++ " rule(s) to " ++ path]),
        output := some (path, sheetText c) }

def summary (c : Compilation) : String :=
  "Summary: " ++ toString (c.diagnostics.filter Diagnostic.isSyntactic).length ++ " syntax, "
    ++ toString (c.diagnostics.filter Diagnostic.isSemantic).length ++ " semantic, "
    ++ toString c.rules.length ++ " rule(s)"

def check (verbose : Bool) (name : String) (c : Compilation) : Report :=
  let stderr := unlines (logLines verbose c)
  if c.diagnostics.isEmpty then
    { stdout := unlines ["OK: " ++ name ++ " compiles cleanly (" ++ toString c.rules.length ++ " rule(s))"], stderr }
  else
    { exitCode := if c.succeeded then 0 else 1,
      stdout := unlines (c.diagnostics.map Diagnostic.text ++ ["", summary c]),
      stderr }

/-- A block on a line of its own and its declarations below it, two spaces for each level. -/
def blockLines (depth : Nat) (b : Block) : List String :=
  let pad := String.ofList (List.replicate (2 * depth) ' ')
  (pad ++ b.selector ++ "  (" ++ toString b.declarations.length ++ " declaration(s))")
    :: b.declarations.map fun d => pad ++ "  " ++ d.property ++ ": " ++ d.value

def atDepth (depth : Nat) (blocks : List Block) : List (Nat × Block) := blocks.map (depth, ·)

@[simp]
theorem map_snd_atDepth (depth : Nat) (blocks : List Block) : (atDepth depth blocks).map Prod.snd = blocks := by
  simp [atDepth, Function.comp_def]

/-- The lines of the blocks that are still to be shown, the next one first, each with its depth. -/
def treeLines : List (Nat × Block) → List String
  | [] => []
  | (depth, b) :: pending => blockLines depth b ++ treeLines (atDepth (depth + 1) b.children ++ pending)
termination_by pending => Block.sizeAll (pending.map Prod.snd)
decreasing_by
  simp only [List.map_append, List.map_cons, map_snd_atDepth, Block.sizeAll_append, Block.sizeAll, Block.size_eq]
  omega

def inspectBlocks (blocks : List Block) (notes : List Diagnostic) : Report :=
  let tree := treeLines (atDepth 0 blocks)
  let problems := if notes.isEmpty then [] else ["", "Diagnostics:"] ++ notes.map indented
  { stdout := unlines (["Blocks: " ++ toString blocks.length, ""] ++ tree ++ problems) }

/-- Position, kind, text and unit of a token on one line. -/
def tokenLine (t : Token) : String :=
  let kind := t.kind.label ++ String.ofList (List.replicate (12 - t.kind.label.length) ' ')
  toString t.position.line ++ ":" ++ toString t.position.column ++ "  " ++ kind ++ " " ++ Text.quoted t.text
    ++ (if t.unit = "" then "" else " unit=" ++ t.unit)

def inspectTokens (tokens : List Token) : Report := { stdout := unlines (tokens.map tokenLine) }

def version : Report := { stdout := "luacss, version 0.1.0\n" }

def help : Report :=
  { stdout := unlines
      ["Usage: luacss [--version] [-v] COMMAND ...", "",
       "  compile SOURCE [-o OUTPUT] [--indent N] [--strict]",
       "  check SOURCE",
       "  inspect SOURCE [--tokens]"] }

end Report

/-! ## Commands -/

/-- The report of a command on the text of its source file. -/
def Command.reportOn (verbose : Bool) (text : String) : Command → Except Fault Report
  | .compile source output options =>
    (NestedStyles.compile options text).map
      (Report.compile verbose (Path.base source) (output.filter (· != "")) options)
  | .check source => (NestedStyles.compile {} text).map (Report.check verbose (Path.base source))
  | .inspect _ true => .ok (Report.inspectTokens (Token.significant text))
  | .inspect _ false =>
    let document := Document.read (Token.significant text)
    document.value.map fun blocks => Report.inspectBlocks blocks document.notes

def Command.report (look : String → Found) (verbose : Bool) (c : Command) : Except Stop Report := do
  let content ← (findSource look c.source).mapError .usage
  if let some path := c.output? then (checkOutput look path).mapError .usage
  let text ← (decodeSource content).mapError .fault
  (c.reportOn verbose text).mapError .fault

def Invocation.report (look : String → Found) : Invocation → Except Stop Report
  | .version => .ok Report.version
  | .help => .ok Report.help
  | .run verbose command => command.report look verbose

/-- The paths that a command line names. -/
def Invocation.paths : Invocation → List String
  | .run _ command => command.source :: command.output?.toList
  | _ => []

/-- Run a command line on a disk: what it answers, and the disk afterwards. -/
def Disk.run (d : Disk) (arguments : List String) : Except Stop (Report × Disk) := do
  let invocation ← (Invocation.ofArguments arguments).mapError .usage
  let report ← invocation.report d.look
  match report.output with
  | none => return (report, d)
  | some (path, text) => return (report, ← (d.write path text).mapError .fault)

end NestedStyles
