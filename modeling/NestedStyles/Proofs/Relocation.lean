import NestedStyles.Document

/-!
# Positions of tokens are only passed on

What is read from tokens depends on their kinds, texts and units. Their positions only show up in diagnostics: with the
tokens elsewhere, the same is read, the same tokens are left, and the diagnostics are those about the moved tokens.

- `Relocation`: other places for tokens, and for the diagnostics about them.
- `Value.read_relocate`, `Entry.read_relocate`, `Block.read_relocate`, `Document.read_relocate`: reading moved tokens.
-/

namespace NestedStyles

/-- The same token elsewhere. -/
def Token.relocate (f : Position → Position) (t : Token) : Token := { t with position := f t.position }

/-- Other places for tokens, and for the diagnostics about them. -/
structure Relocation where
  place : Position → Position
  note : Diagnostic → Diagnostic
  note_about : ∀ (problem : Problem) (t : Option Token),
    note (.about problem t) = .about problem (t.map (Token.relocate place))

namespace Relocation

def token (r : Relocation) (t : Token) : Token := t.relocate r.place

/-- Everything `count` lines further down. -/
def down (count : Nat) : Relocation where
  place p := ⟨p.line + count, p.column⟩
  note d := { d with line := d.line.map (· + (count : Int)) }
  note_about problem t := by cases t <;> rfl

end Relocation

/-- The same outcome with the tokens that are left, and what is said about tokens, elsewhere. -/
def Parsed.relocate {α : Type} (r : Relocation) (p : Parsed α) : Parsed α :=
  ⟨p.value, p.rest.map r.token, p.notes.map r.note⟩

section Readers

variable {α β : Type} (r : Relocation)

/-! ## Tokens -/

@[simp]
theorem Relocation.token_kind (t : Token) : (r.token t).kind = t.kind := rfl

@[simp]
theorem Relocation.token_text (t : Token) : (r.token t).text = t.text := rfl

@[simp]
theorem Relocation.isMark_token (t : Token) (mark : String) : (r.token t).isMark mark = t.isMark mark := rfl

@[simp]
theorem Relocation.isNamed_token (t : Token) (name : String) : (r.token t).isNamed name = t.isNamed name := rfl

@[simp]
theorem Relocation.isIdentifier_token (t : Token) : (r.token t).isIdentifier = t.isIdentifier := rfl

/-- Looking ahead sees no positions. -/
@[simp]
theorem nextIsMark_relocate (tokens : List Token) (mark : String) :
    nextIsMark (tokens.map r.token) mark = nextIsMark tokens mark := by
  cases tokens <;> rfl

@[simp]
theorem nextIsNamed_relocate (tokens : List Token) (name : String) :
    nextIsNamed (tokens.map r.token) name = nextIsNamed tokens name := by
  cases tokens <;> rfl

/-- A comma is stepped over wherever it stands. -/
@[simp]
theorem skipComma_relocate (tokens : List Token) : skipComma (tokens.map r.token) = (skipComma tokens).map r.token := by
  rw [skipComma, skipComma, nextIsMark_relocate]
  split
  · exact List.map_tail.symm
  · rfl

/-- The token that is taken is the moved one, and so is the token that a diagnostic is about. -/
theorem expect_relocate (wanted : String) (tokens : List Token) :
    expect wanted (tokens.map r.token) = ((expect wanted tokens).relocate r).map (Option.map r.token) := by
  cases tokens with
  | nil => simp [expect, Parsed.relocate, Parsed.map, r.note_about]
  | cons t ts =>
    by_cases h : t.text = wanted ∧ t.kind ≠ .literal
    · have h' : (r.token t).text = wanted ∧ (r.token t).kind ≠ .literal := h
      rw [List.map_cons, expect_of_text h.1 h.2, expect_of_text h'.1 h'.2]
      rfl
    · have h' : ¬((r.token t).text = wanted ∧ (r.token t).kind ≠ .literal) := h
      rw [List.map_cons, expect, expect, if_neg h, if_neg h']
      simp only [Parsed.relocate, Parsed.map, List.map_cons, List.map_nil, r.note_about]
      rfl

/-! ## Outcomes -/

namespace Parsed

@[simp]
theorem relocate_value (p : Parsed α) : (p.relocate r).value = p.value := rfl

@[simp]
theorem relocate_rest (p : Parsed α) : (p.relocate r).rest = p.rest.map r.token := rfl

@[simp]
theorem relocate_notes (p : Parsed α) : (p.relocate r).notes = p.notes.map r.note := rfl

/-- Earlier diagnostics move along. -/
theorem after_relocate (notes : List Diagnostic) (p : Parsed α) :
    (p.relocate r).after (notes.map r.note) = (p.after notes).relocate r := by
  simp [relocate, after]

/-- Two parts that move along do so together. -/
theorem andThen_relocate {p : Parsed (Except Fault α)} {next : α → List Token → Parsed (Except Fault β)}
    (hnext : ∀ a, next a (p.rest.map r.token) = (next a p.rest).relocate r) :
    (p.relocate r).andThen next = (p.andThen next).relocate r := by
  obtain ⟨value, rest, notes⟩ := p
  cases value with
  | error fault => rfl
  | ok a => simp only [andThen, relocate, hnext]; exact after_relocate r notes (next a rest)

end Parsed

@[simp]
theorem rest_expect_relocate (wanted : String) (tokens : List Token) :
    (expect wanted (tokens.map r.token)).rest = (expect wanted tokens).rest.map r.token := by
  rw [expect_relocate]
  rfl

@[simp]
theorem notes_expect_relocate (wanted : String) (tokens : List Token) :
    (expect wanted (tokens.map r.token)).notes = (expect wanted tokens).notes.map r.note := by
  rw [expect_relocate]
  rfl

/-! ## Values -/

/-- An argument is the text of its token. -/
theorem Color.arguments_relocate (inside : List Token) :
    Color.arguments (inside.map r.token) = Color.arguments inside := by
  simp only [arguments, List.filter_map, List.map_map]
  rfl

/-- **A color is the same elsewhere.** What there is to say about it is said at the moved name. -/
theorem Color.call_relocate (tokens : List Token) :
    Color.call (tokens.map r.token) = (Color.call tokens).relocate r := by
  have hclass : (fun t : Token => !t.isMark ")") ∘ r.token = fun t => !t.isMark ")" := rfl
  have hname : ∀ name : Option Token, (name.map r.token).map Token.text = name.map Token.text := by
    intro name
    cases name <;> rfl
  have hproblems : ∀ (problems : List Problem) (name : Option Token),
      problems.map (Diagnostic.about · (name.map r.token)) =
        (problems.map (Diagnostic.about · name)).map r.note := by
    intro problems name
    simp only [List.map_map, Function.comp_def, r.note_about]
    rfl
  simp only [call, ← List.map_tail, rest_expect_relocate, notes_expect_relocate, List.head?_map, List.takeWhile_map,
    List.dropWhile_map, hclass, hname, hproblems, arguments_relocate, Parsed.relocate, List.map_append]

namespace Value

theorem stops_relocate (t : Token) (ts : List Token) : stops (r.token t) (ts.map r.token) = stops t ts := by
  simp [stops]

theorem extend_relocate (text : String) (previous : Option Token) (t : Token) (following : Option Token) :
    extend text (previous.map r.token) (r.token t) (following.map r.token) = extend text previous t following := by
  cases previous <;> cases following <;> rfl

/-- The spaces of a value depend on neighbouring tokens and not on the distance between them. -/
theorem gather_relocate (depth : Depth) (previous : Option Token) (text : String) (tokens : List Token) :
    gather depth (previous.map r.token) text (tokens.map r.token) =
      (gather depth previous text tokens).relocate r := by
  induction tokens generalizing depth previous text with
  | nil => rfl
  | cons t ts ih =>
    rw [List.map_cons, gather, gather, stops_relocate]
    split
    · rfl
    · rw [List.head?_map, extend_relocate]
      exact ih _ (some t) _

theorem read_relocate (tokens : List Token) : read (tokens.map r.token) = (read tokens).relocate r := by
  cases tokens with
  | nil => rfl
  | cons t ts =>
    have habsent : isAbsent (r.token t) (ts.map r.token) = isAbsent t ts := by simp [isAbsent]
    have hgather := gather_relocate r {} none "" (t :: ts)
    rw [List.map_cons] at hgather ⊢
    rw [read, read, habsent, r.isNamed_token, nextIsMark_relocate]
    split
    · exact Color.call_relocate r (t :: ts)
    split
    · rfl
    · rw [Option.map_none] at hgather
      rw [hgather]
      rfl

end Value

/-! ## Entries -/

/-- The literal in brackets is the same, and a missing bracket is reported elsewhere. -/
theorem bracketedSelector_relocate (tokens : List Token) :
    bracketedSelector (tokens.map r.token) = (bracketedSelector tokens).relocate r := by
  cases tokens with
  | nil => exact congrArg (Parsed.map fun _ => "") (expect_relocate r "]" [])
  | cons t ts =>
    rw [List.map_cons, bracketedSelector, bracketedSelector, r.token_kind]
    split
    · rw [expect_relocate]
      rfl
    · rw [← List.map_cons, expect_relocate]
      rfl

namespace Declaration

/-- The declarations of a function move along one by one. -/
theorem readAll_relocate (tokens : List Token) : readAll (tokens.map r.token) = (readAll tokens).relocate r := by
  match tokens with
  | [] =>
    rw [List.map_nil, readAll]
    rfl
  | t :: ts =>
    have hcomma := (skipComma_suffix ts).length_le
    have hvalue := ((skipComma_suffix _).trans ((Value.read_suffix ts.tail).trans (List.tail_suffix ts))).length_le
    rw [List.map_cons, readAll_cons, readAll_cons, r.isNamed_token, r.isIdentifier_token, r.token_text,
      nextIsMark_relocate, ← List.map_tail, Value.read_relocate, skipComma_relocate]
    split
    · rfl
    split
    · exact readAll_relocate ts
    split
    · exact readAll_relocate (skipComma ts)
    · exact Parsed.andThen_relocate r fun value => by
        rw [skipComma_relocate, readAll_relocate (skipComma (Value.read ts.tail).rest)]
        rfl
termination_by tokens.length
decreasing_by all_goals simp only [List.length_cons]; omega

theorem readFunction_relocate (tokens : List Token) :
    readFunction (tokens.map r.token) = (readFunction tokens).relocate r := by
  simp only [readFunction, rest_expect_relocate, notes_expect_relocate, readAll_relocate, ← List.map_append]
  rw [Parsed.andThen_relocate r fun _ => by rw [expect_relocate]; rfl, Parsed.after_relocate]

end Declaration

/-- **An entry is the same elsewhere**, whatever it turns out to be. -/
theorem Entry.read_relocate (parent : String) (t : Token) (ts : List Token) :
    Entry.read parent (r.token t) (ts.map r.token) = (Entry.read parent t ts).relocate r := by
  simp only [read, r.isMark_token, r.isIdentifier_token, r.token_text, bracketedSelector_relocate,
    Parsed.relocate_value, Parsed.relocate_rest, Parsed.relocate_notes, rest_expect_relocate, notes_expect_relocate,
    nextIsMark_relocate, nextIsNamed_relocate, skipComma_relocate, ← List.map_tail, ← List.map_append,
    Declaration.readFunction_relocate, Value.read_relocate]
  split
  · split <;> rfl
  split
  · rfl
  split
  · rfl
  split
  · exact Parsed.andThen_relocate r fun _ => by rw [skipComma_relocate]; rfl
  split
  · rfl
  · exact Parsed.andThen_relocate r fun _ => by rw [skipComma_relocate]; rfl

/-! ## Blocks -/

namespace Nesting

def relocate (s : Nesting) : Nesting := ⟨s.top, s.below, s.rest.map r.token, s.notes.map r.note⟩

def Round.relocate : Round → Round
  | .more s => .more (s.relocate r)
  | .done outcome => .done (outcome.relocate r)

theorem map_append_list (notes : Array Diagnostic) (more : List Diagnostic) :
    (notes ++ more).map r.note = notes.map r.note ++ more.map r.note := by
  apply Array.toList_inj.1
  simp

theorem close_relocate (s : Nesting) : (s.relocate r).close = s.close.relocate r := by
  obtain ⟨top, below, rest, notes⟩ := s
  cases below with
  | nil => simp [close, relocate, Round.relocate, Parsed.relocate]
  | cons f fs => simp [close, relocate, Round.relocate, map_append_list]

theorem absorb_relocate (s : Nesting) (item : Parsed (Except Fault Entry)) :
    (s.relocate r).absorb (item.relocate r) = (s.absorb item).relocate r := by
  obtain ⟨value, rest, notes⟩ := item
  cases value with
  | error fault => simp [absorb, relocate, Round.relocate, Parsed.relocate]
  | ok e => cases e <;> simp [absorb, relocate, Round.relocate, Parsed.relocate, map_append_list]

/-- One round on moved tokens is the same round, moved. -/
theorem step_relocate (s : Nesting) : (s.relocate r).step = s.step.relocate r := by
  cases hrest : s.rest with
  | nil =>
    have hrest' : (s.relocate r).rest = [] := by rw [relocate, hrest, List.map_nil]
    rw [step_of_nil hrest, step_of_nil hrest', close_relocate]
  | cons t ts =>
    have hrest' : (s.relocate r).rest = r.token t :: ts.map r.token := by rw [relocate, hrest, List.map_cons]
    by_cases hbrace : t.isMark "\x7d" = true
    · rw [step_of_brace hrest hbrace, step_of_brace hrest' hbrace, close_relocate]
    · rw [step_of_entry hrest hbrace, step_of_entry hrest' hbrace, Entry.read_relocate]
      exact absorb_relocate r s _

/-- So all rounds are, to the end of the block. -/
theorem run_relocate (s : Nesting) : (s.relocate r).run = s.run.relocate r := by
  fun_induction run s with
  | case1 s outcome h => exact run_of_done (by rw [step_relocate, h]; rfl)
  | case2 s s' h ih =>
    have hstep : (s.relocate r).step = .more (s'.relocate r) := by rw [step_relocate, h]; rfl
    rw [run_of_more hstep, ih]

end Nesting

theorem Block.read_relocate (selector : String) (tokens : List Token) :
    Block.read selector (tokens.map r.token) = (Block.read selector tokens).relocate r := by
  rw [read, read, ← Nesting.run_relocate]
  simp [Nesting.relocate]

/-! ## Documents -/

namespace Document

theorem selector?_relocate (t : Token) (ts : List Token) :
    selector? (r.token t) (ts.map r.token) = (selector? t ts).map (Parsed.relocate r) := by
  rw [selector?, selector?, r.isIdentifier_token, r.isMark_token, bracketedSelector_relocate]
  split
  · rfl
  split
  · rfl
  · rfl

/-- **Reading a document of moved tokens** gives the same blocks and the diagnostics about the moved tokens. -/
theorem read_relocate (tokens : List Token) : read (tokens.map r.token) = (read tokens).relocate r := by
  match tokens with
  | [] =>
    rw [List.map_nil, read]
    rfl
  | t :: ts =>
    have hselector := selector?_relocate r t ts
    cases hs : selector? t ts with
    | none =>
      rw [hs, Option.map_none] at hselector
      rw [List.map_cons, read_of_none hs, read_of_none hselector, read_relocate ts]
    | some s =>
      rw [hs, Option.map_some] at hselector
      have hrest := (selector?_suffix hs).length_le
      have htail := (List.tail_suffix s.rest).length_le
      have hblock := (Block.read_suffix s.value s.rest.tail).length_le
      rw [List.map_cons, read_of_some hs, read_of_some hselector]
      simp only [Parsed.relocate_value, Parsed.relocate_rest, Parsed.relocate_notes, nextIsMark_relocate,
        ← List.map_tail]
      split
      · rw [read_relocate s.rest, Parsed.after_relocate]
      split
      · rw [read_relocate s.rest.tail, Parsed.after_relocate]
      · rw [readFrom, Block.read_relocate,
          Parsed.andThen_relocate r fun b => by rw [read_relocate (Block.read s.value s.rest.tail).rest]; rfl,
          Parsed.after_relocate]
        rfl
termination_by tokens.length
decreasing_by all_goals simp only [List.length_cons]; omega

end Document

end Readers

end NestedStyles
