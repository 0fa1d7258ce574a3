import NestedStyles.Compilation
import NestedStyles.Proofs.Relocation

/-!
# A compilation depends on the contents of its tokens

Kind, text and unit of a token are its content. Where a token stands shows only in the places of diagnostics, so two
sources whose tokens have the same contents give the same rules, the same style sheet and the same messages.

- `Token.content`, `Compilation.gist`: tokens and compilations without places.
- `Document.read_of_content`: the same contents are read as the same blocks, with the same messages.
- `compile_gist_of_content`: the same contents give the same gist, or the same fault.
-/

namespace NestedStyles

/-- What a token is, wherever it stands. -/
def Token.content (t : Token) : Token.Kind × String × String := (t.kind, t.text, t.unit)

/-- The token with a content at the beginning of a source. -/
def Token.ofContent (content : Token.Kind × String × String) : Token := ⟨content.1, content.2.1, content.2.2, {}⟩

/-- Everything at the beginning of the source. -/
def Relocation.gathered : Relocation where
  place _ := {}
  note d := { d with line := d.line.map fun _ => 1, column := d.column.map fun _ => 1 }
  note_about problem t := by cases t <;> rfl

theorem Relocation.map_gathered (tokens : List Token) :
    tokens.map gathered.token = (tokens.map Token.content).map Token.ofContent := by
  rw [List.map_map]
  rfl

/-- The style sheet, the rules and the messages of a compilation. -/
def Compilation.gist (c : Compilation) : Option String × List Rule × List String := (c.stylesheet, c.rules, c.messages)

/-- Diagnostics that differ in nothing but their places say the same. -/
theorem messages_of_gathered {notes notes' : List Diagnostic}
    (h : notes.map Relocation.gathered.note = notes'.map Relocation.gathered.note) :
    notes.map Diagnostic.message = notes'.map Diagnostic.message := by
  have hmessage : ∀ notes : List Diagnostic,
      notes.map Diagnostic.message = (notes.map Relocation.gathered.note).map Diagnostic.message := by
    intro notes
    rw [List.map_map]
    rfl
  rw [hmessage notes, hmessage notes', h]

/-- **What is read depends on the contents of tokens**, but for the places of its diagnostics. -/
theorem Document.read_of_content {ts us : List Token} (h : ts.map Token.content = us.map Token.content) :
    (Document.read ts).value = (Document.read us).value ∧
      (Document.read ts).notes.map Diagnostic.message = (Document.read us).notes.map Diagnostic.message := by
  have hread : (Document.read ts).relocate .gathered = (Document.read us).relocate .gathered := by
    rw [← Document.read_relocate, ← Document.read_relocate, Relocation.map_gathered, Relocation.map_gathered, h]
  exact ⟨by simpa using congrArg Parsed.value hread, messages_of_gathered (congrArg Parsed.notes hread)⟩

/-- Of the diagnostics, the style sheet depends on whether there are any. -/
theorem stylesheet?_of_messages {notes notes' : List Diagnostic}
    (h : notes.map Diagnostic.message = notes'.map Diagnostic.message) (options : Options) (rules : List Rule) :
    stylesheet? options rules notes = stylesheet? options rules notes' := by
  have hempty := congrArg List.isEmpty h
  rw [List.isEmpty_map, List.isEmpty_map] at hempty
  rw [stylesheet?, stylesheet?, hempty]

theorem gist_assemble (options : Options) (count : Nat) (blocks : List Block) (notes : List Diagnostic) :
    (assemble options count blocks notes).map Compilation.gist =
      (stylesheet? options (Block.rules blocks) notes).map fun sheet =>
        (sheet, Block.rules blocks, notes.map Diagnostic.message) := by
  rw [assemble]
  cases stylesheet? options (Block.rules blocks) notes with
  | error fault => rfl
  | ok sheet => rfl

/-- **A compilation depends on the contents of its tokens**, but for the places of its diagnostics. -/
theorem compile_gist_of_content {a b : String}
    (h : (Token.significant a).map Token.content = (Token.significant b).map Token.content) (options : Options) :
    (compile options a).map Compilation.gist = (compile options b).map Compilation.gist := by
  obtain ⟨hvalue, hnotes⟩ := Document.read_of_content h
  rw [compile, compile, hvalue]
  cases (Document.read (Token.significant b)).value with
  | error fault => rfl
  | ok blocks =>
    show (assemble ..).map Compilation.gist = (assemble ..).map Compilation.gist
    rw [gist_assemble, gist_assemble, hnotes, stylesheet?_of_messages hnotes]

end NestedStyles
