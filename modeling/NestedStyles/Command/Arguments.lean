/-!
# Cutting a command line

Arguments are options or plain words. An option is written `--name`, `--name value` or `--name=value`, or by its letter
as `-x`, `-x value` or `-xvalue`; letters without a value can be run together. The word `--` ends the options, and a
lone dash is a plain word.

- `Command.cut`: the options and the plain words of a list of arguments.
-/

namespace NestedStyles.Command

/-- What is wrong with a command line. -/
inductive Usage where
  | unknownOption (option : String)
  | missingValue (option : String)
  | unwantedValue (option : String)
  | missingCommand
  | unknownCommand (name : String)
  | missingSource
  | surplusArgument (word : String)
  | invalidIndent (value : String)
  | noSuchSource (path : String)
  | sourceIsFolder (path : String)
  | outputIsFolder (path : String)
deriving DecidableEq, Repr

def Usage.message : Usage → String
  | unknownOption option => "unknown option " ++ option
  | missingValue option => "option " ++ option ++ " needs a value"
  | unwantedValue option => "option " ++ option ++ " takes no value"
  | missingCommand => "a command is missing"
  | unknownCommand name => "unknown command " ++ name
  | missingSource => "the source file is missing"
  | surplusArgument word => "unexpected argument " ++ word
  | invalidIndent value => value ++ " is no indent"
  | noSuchSource path => "file " ++ path ++ " does not exist"
  | sourceIsFolder path => "file " ++ path ++ " is a directory"
  | outputIsFolder path => "file " ++ path ++ " is a directory"

/-- An option that a command knows. -/
structure Switch where
  name : String
  letter : Option Char := none
  takesValue : Bool := false
deriving DecidableEq, Repr

/-- An option as it is given; the value is absent for an option that takes none. -/
structure Setting where
  name : String
  value : Option String := none
deriving DecidableEq, Repr

structure Arguments where
  settings : List Setting := []
  words : List String := []
deriving DecidableEq, Repr

/-- The options in one argument, and the name of an option whose value must follow. -/
structure Group where
  settings : List Setting := []
  pending : Option String := none
deriving DecidableEq, Repr

/-! ## One argument -/

/-- An option by its name, `text` being what follows the two dashes. -/
def named (switches : List Switch) (text : List Char) : Except Usage Group :=
  let name := String.ofList (text.takeWhile (· != '='))
  let given := text.dropWhile (· != '=')
  match switches.find? (·.name == name) with
  | none => .error (.unknownOption ("--" ++ name))
  | some switch =>
    match given, switch.takesValue with
    | [], true => .ok { pending := some name }
    | [], false => .ok { settings := [⟨name, none⟩] }
    | _ :: value, true => .ok { settings := [⟨name, some (String.ofList value)⟩] }
    | _ :: _, false => .error (.unwantedValue ("--" ++ name))

/-- Options by their letters. The first that takes a value has the rest of the argument for it. -/
def lettered (switches : List Switch) : List Char → Except Usage Group
  | [] => .ok {}
  | c :: cs =>
    match switches.find? (·.letter == some c) with
    | none => .error (.unknownOption (String.ofList ['-', c]))
    | some switch =>
      if !switch.takesValue then
        (lettered switches cs).map fun group => { group with settings := ⟨switch.name, none⟩ :: group.settings }
      else if cs.isEmpty then .ok { pending := some switch.name }
      else .ok { settings := [⟨switch.name, some (String.ofList cs)⟩] }

/-- The options of an argument; a plain word has none. -/
def group? (switches : List Switch) (argument : String) : Option (Except Usage Group) :=
  match argument.toList with
  | '-' :: '-' :: text => some (named switches text)
  | '-' :: c :: cs => some (lettered switches (c :: cs))
  | _ => none

/-! ## All arguments -/

/-- Cut a list of arguments. With `mixed` options may follow plain words; without it the first plain word ends the
options. -/
def cut (switches : List Switch) (mixed : Bool) : List String → Except Usage Arguments
  | [] => .ok {}
  | argument :: rest =>
    if argument = "--" then .ok { words := rest }
    else
      match group? switches argument with
      | none =>
        if mixed then (cut switches mixed rest).map fun args => { args with words := argument :: args.words }
        else .ok { words := argument :: rest }
      | some (.error usage) => .error usage
      | some (.ok ⟨settings, none⟩) =>
        (cut switches mixed rest).map fun args => { args with settings := settings ++ args.settings }
      | some (.ok ⟨settings, some name⟩) =>
        match rest with
        | [] => .error (.missingValue name)
        | value :: rest =>
          (cut switches mixed rest).map fun args =>
            { args with settings := settings ++ ⟨name, some value⟩ :: args.settings }

namespace Arguments

def has (args : Arguments) (name : String) : Bool := args.settings.any (·.name == name)

/-- The value of an option; the last one counts. -/
def value? (args : Arguments) (name : String) : Option String :=
  (args.settings.reverse.find? (·.name == name)).bind Setting.value

end Arguments

end NestedStyles.Command
