import NestedStyles.Number.Layout
import NestedStyles.Parsed

/-!
# Colors

A color is written as a call, `color.rgb(1, 2, 3)`. The name says how the arguments are put together; an unknown name
or a missing argument is reported and a replacement is used.

- `Color.call`: reads a call.
- `Color.call_suffix`: what it leaves is a suffix of what follows the first token.
-/

namespace NestedStyles.Color

/-- The ways to write a color. In `unitRgb` the channels are fractions of one. -/
inductive Form where
  | hex
  | rgb
  | rgba
  | hsl
  | hsla
  | unitRgb
deriving DecidableEq, Repr

def Form.ofName? (name : String) : Option Form :=
  if name = "hex" then some .hex
  else if name = "rgb" then some .rgb
  else if name = "rgba" then some .rgba
  else if name = "hsl" then some .hsl
  else if name = "hsla" then some .hsla
  else if name = "color3" then some .unitRgb
  else none

/-- The name of a form in a call. -/
def Form.name : Form → String
  | .hex => "hex"
  | .rgb => "rgb"
  | .rgba => "rgba"
  | .hsl => "hsl"
  | .hsla => "hsla"
  | .unitRgb => "color3"

theorem Form.ofName?_name (form : Form) : ofName? form.name = some form := by
  cases form <;> decide +kernel

/-- A form is known by its name. -/
theorem Form.name_of_ofName? {name : String} {form : Form} (h : ofName? name = some form) : name = form.name := by
  unfold ofName? at h
  iterate 6
    split at h
    · next hname =>
      cases h
      exact hname
  cases h

/-- How many arguments must be given. -/
def Form.required : Form → Nat
  | .hsl => 3
  | .hsla => 4
  | _ => 0

/-! ## The color of given arguments -/

/-- The channel that an argument stands for; text that is no number counts as zero. -/
def channel (argument : String) : Except Fault Int :=
  match Double.read? argument with
  | none => .ok 0
  | some d =>
    match d.channel? with
    | some n => .ok n
    | none => .error .channelOverflow

/-- The argument at a place, zero if there is none. -/
def component (arguments : List String) (i : Nat) : String := arguments.getD i "0"

def list (arguments : List String) : String := ", ".intercalate arguments

/-- The text of a color. Missing components are zero, surplus ones are dropped. -/
def write (form : Form) (arguments : List String) : Except Fault String :=
  match form with
  | .hex =>
    let digits := arguments.headD "000000"
    .ok (if digits.toList.head? = some '#' then digits else "#" ++ digits)
  | .rgb => .ok ("rgb(" ++ list (arguments.take 3) ++ ")")
  | .rgba => .ok ("rgba(" ++ list (arguments.take 4) ++ ")")
  | .hsl =>
    .ok ("hsl(" ++ list [component arguments 0, component arguments 1 ++ "%", component arguments 2 ++ "%"] ++ ")")
  | .hsla =>
    .ok ("hsla(" ++ list [component arguments 0, component arguments 1 ++ "%", component arguments 2 ++ "%",
      component arguments 3] ++ ")")
  | .unitRgb => do
    let red ← channel (component arguments 0)
    let green ← channel (component arguments 1)
    let blue ← channel (component arguments 2)
    .ok ("rgb(" ++ list [toString red, toString green, toString blue] ++ ")")

/-- The color of a named call, with what there is to report about it. Black stands for a color of an unknown name. -/
def build (name : String) (arguments : List String) : Except Fault String × List Problem :=
  match Form.ofName? name with
  | none => (.ok "#000000", [.unknownColor name])
  | some form =>
    (write form arguments,
      if arguments.length < form.required then [.fewComponents name form.required arguments.length] else [])

/-! ## Calls -/

/-- The text of an argument: a number without its unit in its shortest form, any other token as it is. -/
def argument (t : Token) : String := if t.kind = .number then Double.normalize t.text else t.text

/-- The arguments between the parentheses. Commas only divide them. -/
def arguments (inside : List Token) : List String := (inside.filter fun t => !t.isMark ",").map argument

/-- Read a call whose first token is skipped unseen: a point, the name, and the arguments up to the next closing
parenthesis. What is missing is reported in that order, and last what there is to say about the color. -/
def call (tokens : List Token) : Parsed (Except Fault String) :=
  let dot := expect "." tokens.tail
  let name := dot.rest.head?
  let opened := expect "(" dot.rest.tail
  let inside := opened.rest.takeWhile fun t => !t.isMark ")"
  let closed := expect ")" (opened.rest.dropWhile fun t => !t.isMark ")")
  let (color, problems) := build ((name.map Token.text).getD "") (arguments inside)
  ⟨color, closed.rest, dot.notes ++ opened.notes ++ closed.notes ++ problems.map (Diagnostic.about · name)⟩

theorem call_suffix (tokens : List Token) : (call tokens).rest <:+ tokens.tail :=
  (expect_suffix ")" _).trans <| (List.dropWhile_suffix _).trans <| (expect_suffix "(" _).trans <|
    (List.tail_suffix _).trans (expect_suffix "." tokens.tail)

end NestedStyles.Color
