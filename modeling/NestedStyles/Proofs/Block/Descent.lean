import NestedStyles.Stream

/-!
# Blocks by recursive descent

A block is its opening brace, its entries and its closing brace, and an entry may open a block of its own: the reader
calls itself there. `Block.read` does the same with a stack of open blocks. The two agree on every list of tokens,
well-formed or not, in all that they give: the block, the tokens left, the diagnostics and the fault.

- `Descent.block`, `Descent.entries`: the recursive reader.
- `Descent.resume`: what a stack of open blocks stands for, the calls that have not returned yet.
- `Nesting.run_eq_pending`: a run of the stack finishes exactly the pending calls.
- `Stream.perform_block_eq_descent`: reading a block from a stream is recursive descent.
-/

namespace NestedStyles

/-- What an entry contributes in front of the entries behind it. -/
def Entry.onto : Entry → Block → Block
  | .nothing, b => b
  | .declaration d, b => { b with declarations := d :: b.declarations }
  | .nested c, b => { b with children := c :: b.children }
  | .opening _, b => b

namespace Descent

/-- An outcome that leaves some of the tokens that were given. -/
abbrev Reading (α : Type) (tokens : List Token) : Type := { p : Parsed (Except Fault α) // p.rest <:+ tokens }

mutual

/-- Read a block: its opening brace, its entries, its closing brace. -/
def block (selector : String) (tokens : List Token) : Reading Block tokens :=
  let opened := expect "\x7b" tokens
  have hopened : opened.rest <:+ tokens := expect_suffix "\x7b" tokens
  let body := entries selector opened.rest
  ⟨(body.1.andThen fun b rest => (expect "\x7d" rest).map fun _ => .ok b).after opened.notes,
    (Parsed.andThen_suffix body.2 fun _ rest => expect_suffix "\x7d" rest).trans hopened⟩
termination_by (tokens.length, 1)
decreasing_by exact Prod.Lex.right' _ hopened.length_le Nat.zero_lt_one

/-- Read entries up to a closing brace or the end. An entry that opens a block is that block and a comma. -/
def entries (selector : String) : (tokens : List Token) → Reading Block tokens
  | [] => ⟨⟨.ok { selector }, [], []⟩, List.suffix_refl _⟩
  | t :: ts =>
    if t.isMark "\x7d" then ⟨⟨.ok { selector }, t :: ts, []⟩, List.suffix_refl _⟩
    else
      let item := Entry.read selector t ts
      have hitem : item.rest <:+ ts := Entry.read_suffix selector t ts
      match item.value with
      | .error fault => ⟨⟨.error fault, item.rest, item.notes⟩, hitem.trans (List.suffix_cons ..)⟩
      | .ok (.opening inner) =>
        let child := block inner item.rest
        have hchild : child.1.rest <:+ ts := child.2.trans hitem
        match child.1.value with
        | .error fault =>
          ⟨⟨.error fault, child.1.rest, item.notes ++ child.1.notes⟩, hchild.trans (List.suffix_cons ..)⟩
        | .ok c =>
          have hcomma : skipComma child.1.rest <:+ ts := (skipComma_suffix _).trans hchild
          let more := entries selector (skipComma child.1.rest)
          ⟨(more.1.map (Except.map (Entry.nested c).onto)).after (item.notes ++ child.1.notes),
            more.2.trans (hcomma.trans (List.suffix_cons ..))⟩
      | .ok e =>
        let more := entries selector item.rest
        ⟨(more.1.map (Except.map e.onto)).after item.notes, more.2.trans (hitem.trans (List.suffix_cons ..))⟩
termination_by tokens => (tokens.length, 0)
decreasing_by
  · exact Prod.Lex.left _ _ (Nat.lt_succ_of_le hitem.length_le)
  · exact Prod.Lex.left _ _ (Nat.lt_succ_of_le hcomma.length_le)
  · exact Prod.Lex.left _ _ (Nat.lt_succ_of_le hitem.length_le)

end

/-! ## Blocks whose brace was read -/

/-- The frame's own collection in front of what its remaining entries give. -/
def fill (f : Frame) (b : Block) : Block :=
  ⟨b.selector, f.declarations.toList ++ b.declarations, f.children.toList ++ b.children⟩

/-- Read the remaining entries of an open block and its closing brace. -/
def finish (f : Frame) (tokens : List Token) : Parsed (Except Fault Block) :=
  (entries f.selector tokens).1.andThen fun b rest => (expect "\x7d" rest).map fun _ => .ok (fill f b)

/-- **The pending calls of a stack of open blocks**: when the block inside is read, the next one around it adopts it,
steps over a comma and reads on. -/
def resume : List Frame → Parsed (Except Fault Block) → Parsed (Except Fault Block)
  | [], p => p
  | f :: fs, p => resume fs (p.andThen fun b rest => finish (f.adopt b) (skipComma rest))

theorem fill_empty (selector : String) (b : Block) : fill { selector } b = b := by
  cases b
  simp [fill]

theorem fill_nil (f : Frame) : fill f { selector := f.selector } = f.toBlock := by
  simp [fill, Frame.toBlock]

theorem fill_add (f : Frame) (e : Entry) (b : Block) : fill (f.add e) b = fill f (e.onto b) := by
  cases e <;> simp [fill, Frame.add, Frame.adopt, Entry.onto]

theorem add_selector (f : Frame) (e : Entry) : (f.add e).selector = f.selector := by
  cases e <;> rfl

/-! ## The cases of an open block -/

theorem finish_close {f : Frame} {tokens : List Token} (h : tokens = [] ∨ nextIsMark tokens "\x7d" = true) :
    finish f tokens = (expect "\x7d" tokens).map fun _ => .ok f.toBlock := by
  have hentries : (entries f.selector tokens).1 = ⟨.ok { selector := f.selector }, tokens, []⟩ := by
    cases tokens with
    | nil => rw [entries]
    | cons t ts =>
      have ht : t.isMark "\x7d" = true := by simpa [nextIsMark] using h
      rw [entries, if_pos ht]
  simp [finish, hentries, Parsed.andThen, fill_nil, Parsed.after, Parsed.map]

variable {f : Frame} {t : Token} {ts : List Token}

theorem finish_fault (ht : t.isMark "\x7d" = false) {fault : Fault}
    (hitem : (Entry.read f.selector t ts).value = .error fault) :
    finish f (t :: ts) =
      ⟨.error fault, (Entry.read f.selector t ts).rest, (Entry.read f.selector t ts).notes⟩ := by
  rw [finish, entries, if_neg (by simp [ht])]
  simp only [hitem]
  rfl

/-- An entry that opens a block: the call for that block, and then the entries behind it. -/
theorem finish_opening (ht : t.isMark "\x7d" = false) {inner : String}
    (hitem : (Entry.read f.selector t ts).value = .ok (.opening inner)) :
    finish f (t :: ts) = ((block inner (Entry.read f.selector t ts).rest).1.andThen fun c rest =>
      finish (f.adopt c) (skipComma rest)).after (Entry.read f.selector t ts).notes := by
  rw [finish, entries, if_neg (by simp [ht])]
  simp only [hitem]
  cases hchild : (block inner (Entry.read f.selector t ts).rest).1.value with
  | error fault => simp [Parsed.andThen, Parsed.after, hchild]
  | ok c =>
    rw [Parsed.andThen_after, Parsed.andThen_map, Parsed.andThen_of_ok hchild, Parsed.after_after]
    simp only [finish, ← fill_add, Frame.add, Frame.adopt]

theorem finish_add (ht : t.isMark "\x7d" = false) {e : Entry} (he : ∀ inner, e ≠ .opening inner)
    (hitem : (Entry.read f.selector t ts).value = .ok e) :
    finish f (t :: ts) =
      (finish (f.add e) (Entry.read f.selector t ts).rest).after (Entry.read f.selector t ts).notes := by
  rw [finish, entries, if_neg (by simp [ht])]
  simp only [hitem]
  cases e with
  | opening inner => exact absurd rfl (he inner)
  | nothing | declaration d | nested c =>
    simp only [Parsed.andThen_after, Parsed.andThen_map, finish, fill_add, add_selector]

theorem block_eq_finish (selector : String) (tokens : List Token) :
    (block selector tokens).1 =
      (finish { selector } (expect "\x7b" tokens).rest).after (expect "\x7b" tokens).notes := by
  rw [block]
  simp only [finish, fill_empty]

/-! ## Pending calls -/

theorem resume_after (fs : List Frame) (xs : List Diagnostic) (p : Parsed (Except Fault Block)) :
    resume fs (p.after xs) = (resume fs p).after xs := by
  induction fs generalizing p with
  | nil => rfl
  | cons f fs ih => rw [resume, resume, Parsed.andThen_after, ih]

/-- A fault ends all pending calls. -/
theorem resume_fault (fs : List Frame) (fault : Fault) (rest : List Token) (notes : List Diagnostic) :
    resume fs ⟨.error fault, rest, notes⟩ = ⟨.error fault, rest, notes⟩ := by
  induction fs with
  | nil => rfl
  | cons f fs ih => exact ih

end Descent

namespace Nesting

open Descent

/-- What remains to be done in a state, as calls that have not returned yet. -/
def pending (s : Nesting) : Parsed (Except Fault Block) :=
  (resume s.below (finish s.top s.rest)).after s.notes.toList

def Round.pending : Round → Parsed (Except Fault Block)
  | .more s => s.pending
  | .done outcome => outcome

/-- Closing a block is the return of its call. -/
theorem close_pending {s : Nesting} (h : s.rest = [] ∨ nextIsMark s.rest "\x7d" = true) :
    s.close.pending = s.pending := by
  rw [Nesting.pending, finish_close h, close]
  cases s.below with
  | nil => simp [Round.pending, resume, Parsed.after, Parsed.map]
  | cons f fs =>
    have hreturn : (((expect "\x7d" s.rest).map fun _ => Except.ok s.top.toBlock).andThen fun b rest =>
        finish (f.adopt b) (skipComma rest)) =
        (finish (f.adopt s.top.toBlock) (skipComma (expect "\x7d" s.rest).rest)).after (expect "\x7d" s.rest).notes :=
      rfl
    rw [resume, hreturn, resume_after, Parsed.after_after]
    simp [Round.pending, Nesting.pending]

/-- Taking in an entry is reading it in the call of its block; one that opens a block begins a call. -/
theorem absorb_pending {s : Nesting} {t : Token} {ts : List Token} (hrest : s.rest = t :: ts)
    (ht : t.isMark "\x7d" = false) :
    (s.absorb (Entry.read s.top.selector t ts)).pending = s.pending := by
  rw [Nesting.pending, hrest]
  cases hitem : (Entry.read s.top.selector t ts).value with
  | error fault =>
    rw [finish_fault ht hitem, resume_fault]
    simp [absorb, hitem, Round.pending, Parsed.after]
  | ok e =>
    by_cases he : ∃ inner, e = .opening inner
    · obtain ⟨inner, rfl⟩ := he
      rw [finish_opening ht hitem, resume_after, Parsed.after_after, block_eq_finish, Parsed.andThen_after,
        resume_after, Parsed.after_after]
      simp [absorb, hitem, Round.pending, Nesting.pending, resume]
    · rw [finish_add ht (fun inner h => he ⟨inner, h⟩) hitem, resume_after, Parsed.after_after]
      cases e with
      | opening inner => exact absurd ⟨inner, rfl⟩ he
      | nothing | declaration d | nested c => simp [absorb, hitem, Round.pending, Nesting.pending]

theorem step_pending (s : Nesting) : s.step.pending = s.pending := by
  unfold step
  split
  · next hrest => exact close_pending (.inl hrest)
  · next t ts hrest =>
    split
    · next ht => exact close_pending (.inr (by simp [nextIsMark, hrest, ht]))
    · next ht => exact absorb_pending hrest (by simpa using ht)

/-- **A run of the stack finishes the pending calls**, since no round changes what they give. -/
theorem run_eq_pending (s : Nesting) : s.run = s.pending := by
  fun_induction run s with
  | case1 s outcome h => rw [← step_pending, h, Round.pending]
  | case2 s s' h ih => rw [ih, ← step_pending s, h, Round.pending]

end Nesting

theorem Block.read_eq_descent (selector : String) (tokens : List Token) :
    Block.read selector tokens = (Descent.block selector tokens).1 := by
  rw [Block.read, Nesting.run_eq_pending, Descent.block_eq_finish]
  simp [Nesting.pending, Descent.resume]

/-- **The stack of open blocks refines recursive descent.** From any place in any list of tokens, after any earlier
diagnostics, a stream that is asked for a block replies with the block or the fault of the recursive reader, stands
where that reader stops, and has recorded its diagnostics behind the earlier ones. -/
theorem Stream.perform_block_eq_descent (tokens : List Token) (start : Nat) (earlier : List Diagnostic)
    (selector : String) :
    Stream.perform ⟨tokens, start, earlier⟩ (.block selector) =
      let p := (Descent.block selector (tokens.drop start)).1
      (p.value.map .body, ⟨tokens, tokens.length - p.rest.length, earlier ++ p.notes⟩) := by
  rw [Stream.perform, Stream.reading, Block.read_eq_descent]
  rfl

end NestedStyles
