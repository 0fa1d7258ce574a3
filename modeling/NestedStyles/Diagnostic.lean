import NestedStyles.Token

/-!
# Diagnostics

Reading never stops at a mistake: it records what it found and goes on. A diagnostic is a problem with the place where
it was found; a problem at the end of the input has no place.
-/

namespace NestedStyles

/-- Mistakes of form, and well-formed text without a meaning. -/
inductive Problem.Kind where
  | syntactic
  | semantic
deriving DecidableEq, Repr, Inhabited

def Problem.Kind.label : Problem.Kind → String
  | .syntactic => "syntax"
  | .semantic => "semantic"

/-- What can be reported. `found` is absent at the end of the input; a `remark` is a report in words of one's own. -/
inductive Problem where
  | expected (wanted : String) (found : Option String)
  | unknownColor (name : String)
  | fewComponents (name : String) (wanted given : Nat)
  | remark (kind : Problem.Kind) (message : String)
deriving DecidableEq, Repr

namespace Problem

def kind : Problem → Kind
  | expected _ _ => .syntactic
  | unknownColor _ => .semantic
  | fewComponents _ _ _ => .semantic
  | remark kind _ => kind

def message : Problem → String
  | expected wanted found => "Expected '" ++ wanted ++ "' but got '" ++ found.getD "EOF" ++ "'"
  | unknownColor name => "Unknown color function: color." ++ name
  | fewComponents name wanted given =>
    "color." ++ name ++ " expects " ++ toString wanted ++ " arguments, got " ++ toString given
  | remark _ message => message

end Problem

/-- A problem and its place, as far as it is known. -/
structure Diagnostic where
  problem : Problem
  line : Option Int := none
  column : Option Int := none
deriving DecidableEq, Repr

namespace Diagnostic

/-- The problem found at a token, or at the end of the input. -/
def about (problem : Problem) : Option Token → Diagnostic
  | none => { problem }
  | some t => { problem, line := some t.position.line, column := some t.position.column }

def kind (d : Diagnostic) : Problem.Kind := d.problem.kind

def message (d : Diagnostic) : String := d.problem.message

def isSyntactic (d : Diagnostic) : Bool := d.kind == .syntactic

def isSemantic (d : Diagnostic) : Bool := d.kind == .semantic

/-- The place in brackets; a column that is not known although the line is reads `None`. -/
def placeText (d : Diagnostic) : String :=
  match d.line with
  | none => ""
  | some line => " [line " ++ toString line ++ ", col " ++ (d.column.map toString).getD "None" ++ "]"

/-- Kind, place and message on one line. -/
def text (d : Diagnostic) : String := d.kind.label ++ d.placeText ++ ": " ++ d.message

end Diagnostic

end NestedStyles
