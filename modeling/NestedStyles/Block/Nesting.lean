import NestedStyles.Block.Entry

/-!
# Nested blocks

Blocks inside blocks are read with a stack of frames, one for each block that is still open, so the nesting may be as
deep as memory allows. Each round either takes a token or, at the end of the input, closes a block.

- `Nesting.step_cases`, `Nesting.run_invariant`: what a round can be, and what all rounds keep.
- `Nesting.step_lt`: twice the number of tokens left plus the number of open blocks falls with every round.
- `Block.read`: reads a block with all blocks inside it.
- `Block.read_suffix`: what it leaves is a suffix of what it was given.
-/

namespace NestedStyles

/-- A block that is still open: its selector and what it has collected. -/
structure Frame where
  selector : String
  declarations : Array Declaration := #[]
  children : Array Block := #[]
deriving DecidableEq, Repr

namespace Frame

def toBlock (f : Frame) : Block := ⟨f.selector, f.declarations.toList, f.children.toList⟩

def adopt (f : Frame) (b : Block) : Frame := { f with children := f.children.push b }

/-- The frame after an entry; one that opens a block contributes when that block is closed. -/
def add (f : Frame) : Entry → Frame
  | .nothing => f
  | .declaration d => { f with declarations := f.declarations.push d }
  | .nested b => f.adopt b
  | .opening _ => f

end Frame

/-- The innermost open block, the blocks around it from the inside out, the tokens left and the diagnostics so far. -/
structure Nesting where
  top : Frame
  below : List Frame := []
  rest : List Token
  notes : Array Diagnostic := #[]
deriving DecidableEq, Repr

namespace Nesting

/-- What a round ends with: a further state, or the outcome. -/
inductive Round where
  | more (s : Nesting)
  | done (outcome : Parsed (Except Fault Block))

/-- Close the innermost block. Its brace is expected, and missing at the end of the input. -/
def close (s : Nesting) : Round :=
  let brace := expect "\x7d" s.rest
  let notes := s.notes ++ brace.notes
  match s.below with
  | [] => .done ⟨.ok s.top.toBlock, brace.rest, notes.toList⟩
  | f :: fs => .more ⟨f.adopt s.top.toBlock, fs, skipComma brace.rest, notes⟩

/-- Take in an entry that was read: a nested block begins with a frame of its own. -/
def absorb (s : Nesting) (item : Parsed (Except Fault Entry)) : Round :=
  match item.value with
  | .error fault => .done ⟨.error fault, item.rest, (s.notes ++ item.notes).toList⟩
  | .ok (.opening selector) =>
    let brace := expect "\x7b" item.rest
    .more ⟨{ selector }, s.top :: s.below, brace.rest, s.notes ++ item.notes ++ brace.notes⟩
  | .ok e => .more ⟨s.top.add e, s.below, item.rest, s.notes ++ item.notes⟩

/-- One round: an entry of the innermost block, or its end. -/
def step (s : Nesting) : Round :=
  match s.rest with
  | [] => s.close
  | t :: ts => if t.isMark "\x7d" then s.close else s.absorb (Entry.read s.top.selector t ts)

theorem step_of_nil {s : Nesting} (hrest : s.rest = []) : s.step = s.close := by
  simp only [step, hrest]

theorem step_of_brace {s : Nesting} {t : Token} {ts : List Token} (hrest : s.rest = t :: ts)
    (hbrace : t.isMark "\x7d" = true) : s.step = s.close := by
  simp only [step, hrest, if_pos hbrace]

/-- Any other token begins an entry. -/
theorem step_of_entry {s : Nesting} {t : Token} {ts : List Token} (hrest : s.rest = t :: ts)
    (hbrace : ¬t.isMark "\x7d" = true) : s.step = s.absorb (Entry.read s.top.selector t ts) := by
  simp only [step, hrest, if_neg hbrace]

/-- **What a round can be**: it closes the outermost block or one inside another, at a brace or at the end of the input,
or it reads an entry, which ends in a fault, opens a block, or adds to the innermost one. -/
theorem step_cases {motive : Round → Prop} (s : Nesting)
    (ends : s.rest = [] ∨ nextIsMark s.rest "\x7d" = true → s.below = [] →
      motive (.done ⟨.ok s.top.toBlock, (expect "\x7d" s.rest).rest, (s.notes ++ (expect "\x7d" s.rest).notes).toList⟩))
    (closes : s.rest = [] ∨ nextIsMark s.rest "\x7d" = true → ∀ f fs, s.below = f :: fs →
      motive (.more ⟨f.adopt s.top.toBlock, fs, skipComma (expect "\x7d" s.rest).rest,
        s.notes ++ (expect "\x7d" s.rest).notes⟩))
    (fails : ∀ t ts item fault, s.rest = t :: ts → Entry.read s.top.selector t ts = item → item.value = .error fault →
      motive (.done ⟨.error fault, item.rest, (s.notes ++ item.notes).toList⟩))
    (opens : ∀ t ts item selector, s.rest = t :: ts → Entry.read s.top.selector t ts = item →
      item.value = .ok (.opening selector) →
      motive (.more ⟨{ selector }, s.top :: s.below, (expect "\x7b" item.rest).rest,
        s.notes ++ item.notes ++ (expect "\x7b" item.rest).notes⟩))
    (adds : ∀ t ts item e, s.rest = t :: ts → Entry.read s.top.selector t ts = item → item.value = .ok e →
      (∀ selector, e ≠ .opening selector) → motive (.more ⟨s.top.add e, s.below, item.rest, s.notes ++ item.notes⟩)) :
    motive s.step := by
  have hclose : s.rest = [] ∨ nextIsMark s.rest "\x7d" = true → motive s.close := by
    intro hend
    unfold close
    split
    · next hbelow => exact ends hend hbelow
    · next f fs hbelow => exact closes hend f fs hbelow
  cases hrest : s.rest with
  | nil =>
    rw [step_of_nil hrest]
    exact hclose (.inl hrest)
  | cons t ts =>
    by_cases hbrace : t.isMark "\x7d" = true
    · rw [step_of_brace hrest hbrace]
      exact hclose (.inr (by rw [hrest]; exact hbrace))
    · rw [step_of_entry hrest hbrace]
      unfold absorb
      split
      · next fault hvalue => exact fails t ts _ fault hrest rfl hvalue
      · next selector hvalue => exact opens t ts _ selector hrest rfl hvalue
      · next e hopening hvalue => exact adds t ts _ e hrest rfl hvalue fun selector h => hopening selector h

/-! ## The rounds come to an end -/

def measure (s : Nesting) : Nat := 2 * s.rest.length + s.below.length

/-- An entry takes a token, which makes up for the block it may open; and a block is closed without a new token. -/
theorem step_lt {s s' : Nesting} (h : s.step = .more s') : s'.measure < s.measure := by
  revert h
  have hentry : ∀ t ts item, s.rest = t :: ts → Entry.read s.top.selector t ts = item →
      item.rest.length < s.rest.length := by
    rintro t ts _ hrest rfl
    rw [hrest]
    exact Nat.lt_succ_of_le (Entry.read_suffix s.top.selector t ts).length_le
  apply step_cases (motive := fun r => r = .more s' → s'.measure < s.measure)
  case ends => rintro _ _ ⟨⟩
  case closes =>
    rintro _ f fs hbelow ⟨⟩
    have hbrace := (expect_suffix "\x7d" s.rest).length_le
    have hcomma := (skipComma_suffix (expect "\x7d" s.rest).rest).length_le
    simp only [measure, hbelow, List.length_cons]
    omega
  case fails => rintro _ _ _ _ _ _ _ ⟨⟩
  case opens =>
    rintro t ts item _ hrest hitem _ ⟨⟩
    have hbrace := (expect_suffix "\x7b" item.rest).length_le
    have htaken := hentry t ts item hrest hitem
    simp only [measure, List.length_cons]
    omega
  case adds =>
    rintro t ts item _ hrest hitem _ _ ⟨⟩
    have htaken := hentry t ts item hrest hitem
    simp only [measure]
    omega

def run (s : Nesting) : Parsed (Except Fault Block) :=
  match _h : s.step with
  | .done outcome => outcome
  | .more s' => s'.run
termination_by s.measure
decreasing_by exact step_lt _h

theorem run_of_more {s s' : Nesting} (h : s.step = .more s') : s.run = s'.run := by
  rw [run]
  split
  · next h' => rw [h] at h'; cases h'
  · next h' => rw [h] at h'; cases h'; rfl

theorem run_of_done {s : Nesting} {outcome : Parsed (Except Fault Block)} (h : s.step = .done outcome) :
    s.run = outcome := by
  rw [run]
  split
  · next h' => rw [h] at h'; cases h'; rfl
  · next h' => rw [h] at h'; cases h'

/-! ## What is left -/

/-- The tokens that a round leaves. -/
def Round.rest : Round → List Token
  | .more s => s.rest
  | .done outcome => outcome.rest

theorem absorb_suffix (s : Nesting) (item : Parsed (Except Fault Entry)) : (s.absorb item).rest <:+ item.rest := by
  unfold absorb
  split
  · exact List.suffix_refl _
  · exact expect_suffix ..
  · exact List.suffix_refl _

theorem step_suffix (s : Nesting) : s.step.rest <:+ s.rest := by
  have hentry : ∀ t ts item, s.rest = t :: ts → Entry.read s.top.selector t ts = item → item.rest <:+ s.rest := by
    rintro t ts _ hrest rfl
    rw [hrest]
    exact (Entry.read_suffix ..).trans (List.suffix_cons ..)
  apply step_cases (motive := fun r => r.rest <:+ s.rest)
  case ends => exact fun _ _ => expect_suffix ..
  case closes => exact fun _ _ _ _ => (skipComma_suffix _).trans (expect_suffix ..)
  case fails => exact fun t ts item _ hrest hitem _ => hentry t ts item hrest hitem
  case opens => exact fun t ts item _ hrest hitem _ => (expect_suffix ..).trans (hentry t ts item hrest hitem)
  case adds => exact fun t ts item _ hrest hitem _ _ => hentry t ts item hrest hitem

/-! ## What all rounds keep -/

/-- The further state has the property `P`, or the outcome the property `Q`. -/
def Round.Satisfies (P : Nesting → Prop) (Q : Parsed (Except Fault Block) → Prop) : Round → Prop
  | .more s => P s
  | .done outcome => Q outcome

/-- **What every round keeps holds at the end of a run.** The rounds leave suffixes of the tokens of the first state. -/
theorem run_invariant {P : Nesting → Prop} {Q : Parsed (Except Fault Block) → Prop} {tokens : List Token}
    (hstep : ∀ s : Nesting, s.rest <:+ tokens → P s → s.step.Satisfies P Q) {s : Nesting} (hrest : s.rest <:+ tokens)
    (h : P s) : Q s.run := by
  fun_induction run s with
  | case1 s outcome hdone =>
    have hround := hstep s hrest h
    rwa [hdone] at hround
  | case2 s s' hmore ih =>
    have hround := hstep s hrest h
    have hsuffix := step_suffix s
    rw [hmore] at hround hsuffix
    exact ih (hsuffix.trans hrest) hround

/-- What a run leaves is a suffix of what it was given. -/
theorem run_suffix (s : Nesting) : s.run.rest <:+ s.rest := by
  refine run_invariant (P := fun _ => True) (Q := fun p => p.rest <:+ s.rest) ?_ (List.suffix_refl s.rest) trivial
  intro s' hrest _
  have hsuffix := (step_suffix s').trans hrest
  cases hstep : s'.step with
  | more s'' => trivial
  | done outcome => rwa [hstep] at hsuffix

end Nesting

/-- Read a block with the given selector from its opening brace on. -/
def Block.read (selector : String) (tokens : List Token) : Parsed (Except Fault Block) :=
  let brace := expect "\x7b" tokens
  Nesting.run { top := { selector }, rest := brace.rest, notes := brace.notes.toArray }

theorem Block.read_suffix (selector : String) (tokens : List Token) : (Block.read selector tokens).rest <:+ tokens :=
  (Nesting.run_suffix _).trans (expect_suffix ..)

end NestedStyles
