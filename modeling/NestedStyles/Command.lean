import NestedStyles.Command.Arguments
import NestedStyles.Compilation
import NestedStyles.Number.Numeral

/-!
# Commands

- `Command.compile` writes the style sheet of a source file,
- `Command.check` only reports its diagnostics,
- `Command.inspect` shows its blocks or its tokens.

`Invocation.ofArguments` reads a command line.
-/

namespace NestedStyles

inductive Command where
  | compile (source : String) (output : Option String) (options : Options)
  | check (source : String)
  | inspect (source : String) (showTokens : Bool)
deriving DecidableEq, Repr

/-- What a command line asks for. -/
inductive Invocation where
  | version
  | help
  | run (verbose : Bool) (command : Command)
deriving DecidableEq, Repr

namespace Command

def source : Command → String
  | compile source _ _ => source
  | check source => source
  | inspect source _ => source

/-- The file to write; an empty name stands for none. -/
def output? : Command → Option String
  | compile _ output _ => output.filter (· != "")
  | _ => none

/-! ## Options -/

def helpSwitch : Switch := ⟨"help", none, false⟩

def outerSwitches : List Switch := [⟨"version", none, false⟩, ⟨"verbose", some 'v', false⟩, helpSwitch]

def compileSwitches : List Switch :=
  [⟨"output", some 'o', true⟩, ⟨"indent", none, true⟩, ⟨"strict", none, false⟩, helpSwitch]

def checkSwitches : List Switch := [helpSwitch]

def inspectSwitches : List Switch := [⟨"tokens", none, false⟩, helpSwitch]

/-! ## Reading a command -/

def sourceOf : List String → Except Usage String
  | [] => .error .missingSource
  | [source] => .ok source
  | _ :: word :: _ => .error (.surplusArgument word)

def indentOf (args : Arguments) : Except Usage Nat :=
  match args.value? "indent" with
  | none => .ok 2
  | some text =>
    match Numeral.readInt? text with
    | some (.ofNat n) => .ok n
    | _ => .error (.invalidIndent text)

def compileOf (args : Arguments) : Except Usage Command := do
  let indent ← indentOf args
  let source ← sourceOf args.words
  return .compile source (args.value? "output") { indent, strict := args.has "strict" }

def checkOf (args : Arguments) : Except Usage Command := (sourceOf args.words).map .check

def inspectOf (args : Arguments) : Except Usage Command :=
  (sourceOf args.words).map fun source => .inspect source (args.has "tokens")

/-- The options of a command and how its arguments are understood. -/
def grammar? (name : String) : Option (List Switch × (Arguments → Except Usage Command)) :=
  if name = "compile" then some (compileSwitches, compileOf)
  else if name = "check" then some (checkSwitches, checkOf)
  else if name = "inspect" then some (inspectSwitches, inspectOf)
  else none

end Command

namespace Invocation

open Command

/-- An option that is answered before anything else; the first one given counts. -/
def urgent? (args : Arguments) : Option Invocation :=
  args.settings.findSome? fun setting =>
    if setting.name = "version" then some .version
    else if setting.name = "help" then some .help
    else none

/-- The outer options, then a command with its own. A name that is no command may be an option after `--`: then the
outer options are read once more from there, for those that are answered at once. -/
def ofArguments (arguments : List String) : Except Usage Invocation := do
  let outer ← cut outerSwitches false arguments
  if let some answer := urgent? outer then return answer
  match outer.words with
  | [] => throw .missingCommand
  | name :: rest =>
    match grammar? name with
    | none =>
      let again ← cut outerSwitches false (name :: rest)
      match urgent? again with
      | some answer => return answer
      | none => throw (.unknownCommand name)
    | some (switches, understand) =>
      let args ← cut switches true rest
      if let some answer := urgent? args then return answer
      return .run (outer.has "verbose") (← understand args)

end Invocation

end NestedStyles
