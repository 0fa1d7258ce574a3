import NestedStyles.Block
import NestedStyles.Fault

/-!
# Style sheets

The text of a list of rules. Every declaration stands on a line of its own, and a blank line divides the rules. The
spaces before a declaration are one space repeated, and that cannot be done any number of times.

- `Stylesheet.render`: the text of rules.
- `Stylesheet.write`: the same, or the fault of an indent that is too wide.
-/

namespace NestedStyles

def Declaration.render (pad : String) (d : Declaration) : String := pad ++ d.property ++ ": " ++ d.value ++ ";"

/-- A rule with its declarations indented by `indent` spaces; a negative indent gives none. -/
def Rule.render (indent : Int) (r : Rule) : String :=
  let pad := String.ofList (List.replicate indent.toNat ' ')
  r.selector ++ " \x7b\n" ++ "\n".intercalate (r.declarations.map (Declaration.render pad)) ++ "\n\x7d"

namespace Stylesheet

def render (indent : Int) (rules : List Rule) : String := "\n\n".intercalate (rules.map (Rule.render indent))

/-! ## Indents that are too wide -/

/-- The first number that a signed word of 64 bits does not hold. -/
def wordLimit : Nat := Nat.pow 2 63

/-- Whether a space can be repeated so often: a word has to hold the number, and the memory the spaces, of which it has
room for `room`. -/
def checkIndent (room : Nat) (indent : Int) : Except Fault Unit :=
  if indent < -(wordLimit : Int) ∨ (wordLimit : Int) ≤ indent then .error .indentOverflow
  else if (room : Int) < indent then .error .outOfMemory
  else .ok ()

/-- The text of rules. The spaces are made for each rule, so without rules no indent is too wide. -/
def write (room : Nat) (indent : Int) (rules : List Rule) : Except Fault String :=
  if rules.isEmpty then .ok "" else (checkIndent room indent).map fun _ => render indent rules

end Stylesheet

end NestedStyles
