import NestedStyles.Proofs.Document.Composition
import NestedStyles.Proofs.Preliminaries
import NestedStyles.Proofs.Truncation

/-!
# Blocks that are left open

Braces that are missing at the end of a document lose nothing: all blocks that are still open are closed there, each is
put into the block around it, and each is reported once. So a document that was read without a report gives the same
blocks if its last braces are cut off.

- `Nesting.closings`, `Document.closings`: the braces that close a block, by the number of tokens behind them.
- `Nesting.run_of_nil`, `Nesting.run_of_braces`: open blocks at the end of the input, and before their last braces.
- `Nesting.run_spared`, `Nesting.run_truncated`: a run that leaves the braces, and a run that takes them.
- `Document.read_truncated`: a document that ends with braces.
- `Document.read_unclosed`: the last braces of a document, any number of them.
-/

namespace NestedStyles

/-- Among the tokens there is a closing brace with `n` tokens behind it. -/
def BraceAt (tokens : List Token) (n : Nat) : Prop :=
  ∃ z zs, z :: zs <:+ tokens ∧ z.isMark "\x7d" = true ∧ zs.length = n

namespace BraceAt

variable {tokens rest zs : List Token} {z : Token} {n : Nat}

theorem mono (h : BraceAt rest n) (hrest : rest <:+ tokens) : BraceAt tokens n := by
  obtain ⟨z, zs, hzs, hz, hn⟩ := h
  exact ⟨z, zs, hzs.trans hrest, hz, hn⟩

theorem lt (h : BraceAt tokens n) : n < tokens.length := by
  obtain ⟨z, zs, hzs, -, rfl⟩ := h
  exact hzs.length_le

/-- What begins no earlier than the brace is left if the brace is. -/
theorem suffix (h : BraceAt rest n) (hn : zs.length ≤ n + 1) (hzs : zs <:+ tokens) (hrest : rest <:+ tokens) :
    zs <:+ rest :=
  List.suffix_of_suffix_length_le hzs hrest (Nat.le_trans hn h.lt)

theorem isMark (h : BraceAt tokens zs.length) (hzs : z :: zs <:+ tokens) : z.isMark "\x7d" = true := by
  obtain ⟨y, ys, hys, hy, hlength⟩ := h
  have hsame : (y :: ys).length = (z :: zs).length := congrArg Nat.succ hlength
  have heq := (List.suffix_of_suffix_length_le hys hzs (Nat.le_of_eq hsame)).eq_of_length hsame
  obtain ⟨rfl, -⟩ := List.cons.inj heq
  exact hy

end BraceAt

theorem nextIsMark_of_braces {braces : List Token} (hbraces : ∀ t ∈ braces, t.isMark "\x7d" = true)
    (hne : braces ≠ []) : nextIsMark braces "\x7d" = true := by
  obtain ⟨z, zs, rfl⟩ := List.exists_cons_of_ne_nil hne
  exact hbraces z List.mem_cons_self

/-- How many tokens are behind the closing brace that comes next, if one does. -/
def closing (tokens : List Token) : List Nat := if nextIsMark tokens "\x7d" then [tokens.tail.length] else []

theorem exists_of_mem_closing {tokens : List Token} {n : Nat} (h : n ∈ closing tokens) :
    ∃ z zs, tokens = z :: zs ∧ z.isMark "\x7d" = true ∧ zs.length = n := by
  unfold closing at h
  split at h
  · next hnext =>
    obtain ⟨z, zs, rfl, hz⟩ := exists_brace hnext
    exact ⟨z, zs, rfl, hz, (List.mem_singleton.1 h).symm⟩
  · cases h

/-- What is reported for a block that is still open at the end of the input. -/
def missingBrace : Diagnostic := .about (.expected "\x7d" none) none

namespace Nesting

/-- A block with nothing in it yet, behind its opening brace. -/
def begin (selector : String) (tokens : List Token) : Nesting :=
  { top := { selector }, rest := (expect "\x7b" tokens).rest, notes := (expect "\x7b" tokens).notes.toArray }

/-- The braces that close a block from here on, each given by the number of tokens behind it. -/
def closings (s : Nesting) : List Nat :=
  match _h : s.step with
  | .done _ => closing s.rest
  | .more s' => closing s.rest ++ s'.closings
termination_by s.measure
decreasing_by exact step_lt _h

variable {s s' : Nesting}

theorem closings_of_more (h : s.step = .more s') : s.closings = closing s.rest ++ s'.closings := by
  rw [closings]
  split
  · next h' => rw [h] at h'; cases h'
  · next h' => rw [h] at h'; cases h'; rfl

theorem closings_of_done {outcome : Parsed (Except Fault Block)} (h : s.step = .done outcome) :
    s.closings = closing s.rest := by
  rw [closings]
  split
  · rfl
  · next h' => rw [h] at h'; cases h'

/-- A run leaves no more than its first round. -/
theorem run_suffix_step (s : Nesting) : s.run.rest <:+ s.step.rest := by
  cases h : s.step with
  | more s' =>
    rw [run_of_more h]
    exact run_suffix s'
  | done outcome =>
    rw [run_of_done h]
    exact List.suffix_refl _

theorem step_brace_suffix {z : Token} {zs : List Token} (hrest : s.rest = z :: zs) (hz : z.isMark "\x7d" = true) :
    s.step.rest <:+ zs := by
  have htaken : (expect "\x7d" s.rest).rest = zs := by rw [hrest, expect_of_isMark hz]
  rw [step_of_brace hrest hz, close]
  split
  · exact htaken ▸ List.suffix_refl _
  · exact htaken ▸ skipComma_suffix _

/-- A brace that closes a block stands among the tokens, and a run leaves only what is behind it. -/
theorem of_mem_closings {n : Nat} (h : n ∈ s.closings) : BraceAt s.rest n ∧ s.run.rest.length ≤ n := by
  have hnext : ∀ s : Nesting, n ∈ closing s.rest → BraceAt s.rest n ∧ s.run.rest.length ≤ n := by
    intro s h
    obtain ⟨z, zs, hrest, hz, rfl⟩ := exists_of_mem_closing h
    have hrun := (run_suffix_step s).trans (step_brace_suffix hrest hz)
    exact ⟨⟨z, zs, hrest ▸ List.suffix_refl _, hz, rfl⟩, hrun.length_le⟩
  fun_induction closings s with
  | case1 s outcome hstep => exact hnext s h
  | case2 s s' hstep ih =>
    rcases List.mem_append.1 h with h | h
    · exact hnext s h
    · obtain ⟨hbrace, hrun⟩ := ih h
      have hround := step_suffix s
      rw [hstep] at hround
      exact ⟨hbrace.mono hround, by rwa [run_of_more hstep]⟩

/-! ## The end of the input -/

/-- The outermost block when all open blocks are closed. -/
def collapse : Frame → List Frame → Block
  | top, [] => top.toBlock
  | top, f :: fs => collapse (f.adopt top.toBlock) fs

/-- At the end of the input all open blocks are closed, and each is reported. -/
theorem run_of_nil (top : Frame) (below : List Frame) (notes : Array Diagnostic) :
    run ⟨top, below, [], notes⟩ =
      ⟨.ok (collapse top below), [], notes.toList ++ List.replicate (below.length + 1) missingBrace⟩ := by
  induction below generalizing top notes with
  | nil =>
    rw [run_of_done (step_of_nil rfl)]
    simp [missingBrace, collapse, expect]
  | cons f fs ih =>
    have hstep : step ⟨top, f :: fs, [], notes⟩ = .more ⟨f.adopt top.toBlock, fs, [], notes ++ [missingBrace]⟩ := rfl
    rw [run_of_more hstep, ih, List.length_cons]
    simp [collapse, List.replicate_succ]

theorem skipComma_of_braces {tokens : List Token} (h : ∀ t ∈ tokens, t.isMark "\x7d" = true) :
    skipComma tokens = tokens := by
  cases tokens with
  | nil => rfl
  | cons t ts =>
    have hcomma : ¬t.isMark "," = true := by simp [Token.isMark_of_ne (h t List.mem_cons_self)]
    exact if_neg hcomma

/-- If there are only braces left, and each of them closes a block, then there is one for each open block. -/
theorem run_of_braces (top : Frame) (below : List Frame) {rest : List Token} (notes : Array Diagnostic)
    (hbraces : ∀ t ∈ rest, t.isMark "\x7d" = true) (hne : rest ≠ [])
    (hclosings : ∀ n < rest.length, n ∈ closings ⟨top, below, rest, notes⟩)
    (hquiet : (run ⟨top, below, rest, notes⟩).notes = []) :
    rest.length = below.length + 1 ∧ run ⟨top, below, rest, notes⟩ = ⟨.ok (collapse top below), [], []⟩ := by
  obtain ⟨z, zs, rfl⟩ := List.exists_cons_of_ne_nil hne
  obtain ⟨hz, hzs⟩ := List.forall_mem_cons.1 hbraces
  have hclosing : closing (z :: zs) = [zs.length] := if_pos hz
  induction below generalizing top z zs notes with
  | nil =>
    have hstep : step ⟨top, [], z :: zs, notes⟩ = .done ⟨.ok top.toBlock, zs, notes.toList⟩ := by
      rw [step_of_brace rfl hz]
      simp [close, expect_of_isMark hz]
    -- the last token closes the only open block, so it is the one that comes next
    have hlast := hclosings 0 (Nat.zero_lt_succ _)
    rw [closings_of_done hstep, hclosing, List.mem_singleton] at hlast
    obtain rfl : zs = [] := List.eq_nil_of_length_eq_zero hlast.symm
    rw [run_of_done hstep] at hquiet ⊢
    exact ⟨rfl, congrArg (Parsed.mk _ _) hquiet⟩
  | cons f fs ih =>
    have hstep : step ⟨top, f :: fs, z :: zs, notes⟩ = .more ⟨f.adopt top.toBlock, fs, zs, notes⟩ := by
      rw [step_of_brace rfl hz]
      simp [close, expect_of_isMark hz, skipComma_of_braces hzs]
    rw [run_of_more hstep] at hquiet ⊢
    cases zs with
    | nil =>
      -- the block around it would be reported
      rw [run_of_nil, List.append_eq_nil_iff] at hquiet
      cases hquiet.2
    | cons y ys =>
      obtain ⟨hy, hys⟩ := List.forall_mem_cons.1 hzs
      have hbehind : ∀ n < (y :: ys).length, n ∈ closings ⟨f.adopt top.toBlock, fs, y :: ys, notes⟩ := by
        intro n hn
        have hmem := hclosings n (Nat.lt_succ_of_lt hn)
        rw [closings_of_more hstep, hclosing, List.singleton_append, List.mem_cons] at hmem
        exact hmem.resolve_left (Nat.ne_of_lt hn)
      obtain ⟨hlength, hrun⟩ := ih (f.adopt top.toBlock) notes y ys hzs (List.cons_ne_nil y ys) hbehind hquiet hy hys
        (if_pos hy)
      exact ⟨congrArg Nat.succ hlength, hrun⟩

/-! ## Runs -/

variable {braces : List Token}

theorem step_quiet (hquiet : s.run.notes = []) : s.step.notes = [] := by
  have hnotes := run_notes s
  rwa [hquiet, List.prefix_nil] at hnotes

/-- A round spares what its run spares. -/
theorem step_spares (hleft : braces <:+ s.run.rest) (hquiet : s.run.notes = []) : s.step.Spares braces :=
  ⟨hleft.trans (run_suffix_step s), step_quiet hquiet⟩

/-- A run that leaves the braces is the same without them. -/
theorem run_spared (hmore : nextIsMark braces "\x7d" = true) (hleft : braces <:+ (s.followedBy braces).run.rest)
    (hquiet : (s.followedBy braces).run.notes = []) : (s.followedBy braces).run = s.run.followedBy braces := by
  have hopen : ∀ s : Nesting, braces <:+ (s.followedBy braces).run.rest → s.rest ≠ [] := by
    intro s hleft hnil
    obtain ⟨z, zs, rfl, hz⟩ := exists_brace hmore
    have hrest : (s.followedBy (z :: zs)).rest = z :: zs := by rw [followedBy, hnil, List.nil_append]
    exact not_suffix_tail hmore (hleft.trans ((run_suffix_step _).trans (step_brace_suffix hrest hz)))
  fun_induction run s with
  | case1 s outcome hstep =>
    have hround := step_ahead hmore (hopen s hleft) (step_spares hleft hquiet)
    rw [hstep] at hround
    exact run_of_done hround
  | case2 s s' hstep ih =>
    have hround := step_ahead hmore (hopen s hleft) (step_spares hleft hquiet)
    rw [hstep] at hround
    have hrun : (s.followedBy braces).run = (s'.followedBy braces).run := run_of_more hround
    rw [hrun] at hleft hquiet ⊢
    exact ih hleft hquiet

/-- If the next token is none of the braces and they all close a block, then a round does not take them. -/
theorem exists_step_of_closings (hmore : nextIsMark braces "\x7d" = true) (hrest : s.rest ≠ [])
    (hclosings : ∀ n < braces.length, n ∈ (s.followedBy braces).closings)
    (hquiet : (s.followedBy braces).run.notes = []) :
    ∃ s', s.step = .more s' ∧ (s.followedBy braces).step = .more (s'.followedBy braces) ∧
      ∀ n < braces.length, n ∈ (s'.followedBy braces).closings := by
  -- the next token has all the braces behind it
  have hnext : ∀ n < braces.length, n ∉ closing (s.followedBy braces).rest := by
    intro n hn hmem
    obtain ⟨z, zs, hzs, -, hlength⟩ := exists_of_mem_closing hmem
    have htotal : s.rest.length + braces.length = zs.length + 1 := by
      rw [← List.length_append, ← List.length_cons, ← hzs, followedBy]
    have hpos := List.length_pos_iff.2 hrest
    omega
  have hlast : braces.length - 1 < braces.length := by
    obtain ⟨z, zs, rfl, -⟩ := exists_brace hmore
    exact Nat.lt_succ_self zs.length
  cases hfull : (s.followedBy braces).step with
  | done outcome =>
    have hmem := hclosings _ hlast
    rw [closings_of_done hfull] at hmem
    exact absurd hmem (hnext _ hlast)
  | more full =>
    have hbehind : ∀ n < braces.length, n ∈ full.closings := by
      intro n hn
      have hmem := hclosings n hn
      rw [closings_of_more hfull] at hmem
      exact (List.mem_append.1 hmem).resolve_left (hnext n hn)
    have hround := step_suffix (s.followedBy braces)
    have hleft : braces <:+ (s.followedBy braces).step.rest := by
      rw [hfull] at hround ⊢
      obtain ⟨hbrace, -⟩ := of_mem_closings (hbehind _ hlast)
      exact hbrace.suffix (by omega) (List.suffix_append s.rest braces) hround
    have hstep := step_ahead hmore hrest ⟨hleft, step_quiet hquiet⟩
    rw [hfull] at hstep
    cases hcut : s.step with
    | done outcome =>
      rw [hcut] at hstep
      cases hstep
    | more s' =>
      rw [hcut] at hstep
      cases hstep
      exact ⟨s', rfl, rfl, hbehind⟩

/-- **A run that takes the braces is the same without them**, except that each of them is reported. -/
theorem run_truncated {s : Nesting} (hbraces : ∀ t ∈ braces, t.isMark "\x7d" = true) (hne : braces ≠ [])
    (hclosings : ∀ n < braces.length, n ∈ (s.followedBy braces).closings)
    (hquiet : (s.followedBy braces).run.notes = []) :
    (s.followedBy braces).run.rest = [] ∧
      s.run = ⟨(s.followedBy braces).run.value, [], List.replicate braces.length missingBrace⟩ := by
  by_cases hrest : s.rest = []
  · obtain ⟨top, below, rest, notes⟩ := s
    obtain rfl : rest = [] := hrest
    obtain ⟨hlength, hrun⟩ := run_of_braces top below notes hbraces hne hclosings hquiet
    have hfull : (followedBy braces ⟨top, below, [], notes⟩).run = ⟨.ok (collapse top below), [], []⟩ := hrun
    have hnotes := (step_notes (followedBy braces ⟨top, below, [], notes⟩)).trans (run_notes _)
    rw [hfull, List.prefix_nil] at hnotes
    have hearlier : notes.toList = [] := hnotes
    rw [hfull, run_of_nil, hearlier, hlength]
    exact ⟨rfl, rfl⟩
  · have hmore := nextIsMark_of_braces hbraces hne
    obtain ⟨s', hstep, hfull, hbehind⟩ := exists_step_of_closings hmore hrest hclosings hquiet
    rw [run_of_more hstep]
    rw [run_of_more hfull] at hquiet ⊢
    exact run_truncated hbraces hne hbehind hquiet
termination_by s.measure
decreasing_by exact step_lt hstep

end Nesting

/-! ## Documents -/

namespace Document

mutual

/-- The braces that close a block of a document, each given by the number of tokens behind it. -/
def closings : List Token → List Nat
  | [] => []
  | t :: ts =>
    match hs : selector? t ts with
    | none => closings ts
    | some s =>
      have : s.rest.length ≤ ts.length := (selector?_suffix hs).length_le
      have : s.rest.tail.length ≤ s.rest.length := (List.tail_suffix s.rest).length_le
      if !nextIsMark s.rest "=" then closings s.rest
      else if !nextIsMark s.rest.tail "\x7b" then closings s.rest.tail
      else closingsFrom s.value s.rest.tail
termination_by tokens => 2 * tokens.length
decreasing_by all_goals simp only [List.length_cons]; omega

/-- The braces that close a block which begins here, or a block behind it. -/
def closingsFrom (selector : String) (tokens : List Token) : List Nat :=
  have : (Block.read selector tokens).rest.length ≤ tokens.length := (Block.read_suffix ..).length_le
  let inside := (Nesting.begin selector tokens).closings
  match (Block.read selector tokens).value with
  | .error _ => inside
  | .ok _ => inside ++ closings (Block.read selector tokens).rest
termination_by 2 * tokens.length + 1
decreasing_by omega

end

theorem closings_of_none {t : Token} {ts : List Token} (h : selector? t ts = none) :
    closings (t :: ts) = closings ts := by
  rw [closings]
  split
  · rfl
  · next h' => rw [h] at h'; cases h'

theorem closings_of_some {t : Token} {ts : List Token} {s : Parsed String} (h : selector? t ts = some s) :
    closings (t :: ts) =
      if !nextIsMark s.rest "=" then closings s.rest
      else if !nextIsMark s.rest.tail "\x7b" then closings s.rest.tail
      else closingsFrom s.value s.rest.tail := by
  rw [closings]
  split
  · next h' => rw [h] at h'; cases h'
  · next s' h' =>
    rw [h] at h'
    cases h'
    rfl

mutual

/-- A brace that closes a block stands among the tokens. -/
theorem braceAt_of_mem_closings {tokens : List Token} {n : Nat} (h : n ∈ closings tokens) : BraceAt tokens n := by
  match tokens with
  | [] =>
    rw [closings] at h
    cases h
  | t :: ts =>
    cases hs : selector? t ts with
    | none =>
      rw [closings_of_none hs] at h
      exact (braceAt_of_mem_closings h).mono (List.suffix_cons t ts)
    | some s =>
      have hrest := (selector?_suffix hs).trans (List.suffix_cons t ts)
      have htail := (List.tail_suffix s.rest).trans hrest
      have hrest_le := (selector?_suffix hs).length_le
      have htail_le := (List.tail_suffix s.rest).length_le
      rw [closings_of_some hs] at h
      split at h
      · exact (braceAt_of_mem_closings h).mono hrest
      split at h
      · exact (braceAt_of_mem_closings h).mono htail
      · exact (braceAt_of_mem_closingsFrom h).mono htail
termination_by 2 * tokens.length
decreasing_by all_goals simp only [List.length_cons]; omega

theorem braceAt_of_mem_closingsFrom {selector : String} {tokens : List Token} {n : Nat}
    (h : n ∈ closingsFrom selector tokens) : BraceAt tokens n := by
  have hinside : n ∈ (Nesting.begin selector tokens).closings → BraceAt tokens n :=
    fun hmem => (Nesting.of_mem_closings hmem).1.mono (expect_suffix "\x7b" tokens)
  have hsuffix := Block.read_suffix selector tokens
  have hsuffix_le := hsuffix.length_le
  rw [closingsFrom] at h
  split at h
  · exact hinside h
  · rcases List.mem_append.1 h with h | h
    · exact hinside h
    · exact (braceAt_of_mem_closings h).mono hsuffix
termination_by 2 * tokens.length + 1
decreasing_by omega

end

/-- Braces outside of all blocks close none. -/
theorem closings_of_braces {tokens : List Token} (h : ∀ t ∈ tokens, t.isMark "\x7d" = true) : closings tokens = [] := by
  induction tokens with
  | nil => rw [closings]
  | cons t ts ih =>
    obtain ⟨ht, hts⟩ := List.forall_mem_cons.1 h
    have hnone : selector? t ts = none := by
      rw [selector?, Token.isIdentifier_of_isMark ht, Token.isMark_of_ne ht (by decide)]
      rfl
    rw [closings_of_none hnone, ih hts]

/-- The last tokens are braces if each of them closes a block. -/
theorem braces_of_closings {tokens braces : List Token} (hsuffix : braces <:+ tokens)
    (h : ∀ n < braces.length, n ∈ closings tokens) : ∀ t ∈ braces, t.isMark "\x7d" = true := by
  intro t ht
  obtain ⟨before, behind, rfl⟩ := List.append_of_mem ht
  have hlt : behind.length < (before ++ t :: behind).length := by
    rw [List.length_append, List.length_cons]
    omega
  exact (braceAt_of_mem_closings (h _ hlt)).isMark ((List.suffix_append before _).trans hsuffix)

theorem selector?_ahead {t : Token} {ts more : List Token} (hmore : nextIsMark more "\x7d" = true)
    {full : Parsed String} (hfull : selector? t (ts ++ more) = some full) (h : full.Spares more) :
    ∃ s, selector? t ts = some s ∧ full = s.followedBy more := by
  unfold selector? at hfull ⊢
  split at hfull
  · next hkey =>
    cases hfull
    exact ⟨_, if_pos hkey, rfl⟩
  next hkey =>
  rw [if_neg hkey]
  split at hfull
  · next hbracket =>
    cases hfull
    exact ⟨_, if_pos hbracket, bracketedSelector_ahead hmore h⟩
  · cases hfull

section Truncated

variable {braces : List Token} (hbraces : ∀ t ∈ braces, t.isMark "\x7d" = true) (hne : braces ≠ [])
include hbraces hne

/-- A block that is being read, and the blocks behind it, of which `hbehind` says how they are read without the
braces. -/
theorem run_andThen_truncated {s : Nesting} {b : Block} {blocks : List Block}
    (hclosings : ∀ n < braces.length, n ∈ (s.followedBy braces).closings ++ closings (s.followedBy braces).run.rest)
    (hblock : (s.followedBy braces).run.value = .ok b) (hinside : (s.followedBy braces).run.notes = [])
    (hvalue : (read (s.followedBy braces).run.rest).value = .ok blocks)
    (hquiet : (read (s.followedBy braces).run.rest).notes = [])
    (hbehind : ∀ rest, rest <:+ s.rest → (∀ n < braces.length, n ∈ closings (rest ++ braces)) →
      (read (rest ++ braces)).value = .ok blocks → (read (rest ++ braces)).notes = [] →
      read rest = ⟨.ok blocks, [], List.replicate braces.length missingBrace⟩) :
    (s.run.andThen fun b rest => (read rest).map (Except.map (b :: ·))) =
      ⟨.ok (b :: blocks), [], List.replicate braces.length missingBrace⟩ := by
  have hmore := nextIsMark_of_braces hbraces hne
  have hsuffix := Nesting.run_suffix (s.followedBy braces)
  have hlast : braces <:+ (s.followedBy braces).rest := List.suffix_append s.rest braces
  by_cases hleft : braces.length ≤ (s.followedBy braces).run.rest.length
  · -- the braces are left, and they close blocks behind this one
    have hrun := Nesting.run_spared hmore (List.suffix_of_suffix_length_le hlast hsuffix hleft) hinside
    have houter : ∀ n < braces.length, n ∈ closings (s.run.followedBy braces).rest := by
      intro n hn
      rw [← hrun]
      refine (List.mem_append.1 (hclosings n hn)).resolve_left fun hmem => ?_
      have hfar := (Nesting.of_mem_closings hmem).2
      omega
    rw [hrun] at hblock hinside hvalue hquiet
    have hvalueCut : s.run.value = .ok b := hblock
    have hquietCut : s.run.notes = [] := hinside
    rw [Parsed.andThen_of_ok hvalueCut, hbehind _ (Nesting.run_suffix s) houter hvalue hquiet, hquietCut]
    rfl
  · -- the braces are taken, since what this block leaves of them would close nothing
    have hrest := List.suffix_of_suffix_length_le hsuffix hlast (by omega)
    rw [closings_of_braces fun t ht => hbraces t (hrest.subset ht), List.append_nil] at hclosings
    obtain ⟨hnil, hrun⟩ := Nesting.run_truncated hbraces hne hclosings hinside
    rw [hnil, read] at hvalue
    cases hvalue
    rw [hrun, hblock, Parsed.andThen_of_ok rfl, read]
    exact congrArg (Parsed.mk _ _) (List.append_nil _)

theorem readFrom_truncated {selector : String} {ts : List Token} {blocks : List Block}
    (hopen : nextIsMark ts "\x7b" = true) (hclosings : ∀ n < braces.length, n ∈ closingsFrom selector (ts ++ braces))
    (hvalue : (readFrom selector (ts ++ braces)).value = .ok blocks)
    (hquiet : (readFrom selector (ts ++ braces)).notes = [])
    (hbehind : ∀ rest more, rest <:+ ts → (∀ n < braces.length, n ∈ closings (rest ++ braces)) →
      (read (rest ++ braces)).value = .ok more → (read (rest ++ braces)).notes = [] →
      read rest = ⟨.ok more, [], List.replicate braces.length missingBrace⟩) :
    readFrom selector ts = ⟨.ok blocks, [], List.replicate braces.length missingBrace⟩ := by
  have hts : ts ≠ [] := by
    rintro rfl
    cases hopen
  have hbegin : Nesting.begin selector (ts ++ braces) = (Nesting.begin selector ts).followedBy braces := by
    rw [Nesting.begin, expect_followedBy braces hts]
    rfl
  have hread : Block.read selector (ts ++ braces) = ((Nesting.begin selector ts).followedBy braces).run := by
    rw [← hbegin]
    rfl
  rw [closingsFrom, hbegin, hread] at hclosings
  rw [readFrom, hread] at hvalue hquiet
  obtain ⟨b, hblock, hbehindBlock⟩ := Parsed.exists_of_andThen hvalue
  obtain ⟨more, hmore, rfl⟩ := map_eq_ok_iff.1 hbehindBlock
  rw [Parsed.andThen_of_ok hblock] at hquiet
  simp only [hblock] at hclosings
  obtain ⟨hinside, houtside⟩ := List.append_eq_nil_iff.1 hquiet
  refine run_andThen_truncated hbraces hne hclosings hblock hinside hmore houtside fun rest hrest => ?_
  exact hbehind rest more (hrest.trans (expect_suffix "\x7b" ts))

/-- A selector leaves the braces, since all that close a block are behind it. -/
theorem exists_selector_of_closings {t : Token} {ts : List Token} {full : Parsed String}
    (hfull : selector? t (ts ++ braces) = some full)
    (hclosings : ∀ n < braces.length, n ∈ closings (t :: (ts ++ braces)))
    (hquiet : (read (t :: (ts ++ braces))).notes = []) :
    ∃ s, selector? t ts = some s ∧ full = s.followedBy braces ∧ s.notes = [] := by
  have hpos := List.length_pos_iff.2 hne
  have hbrace : BraceAt full.rest (braces.length - 1) := by
    have hmem := hclosings _ (Nat.sub_one_lt_of_lt hpos)
    rw [closings_of_some hfull] at hmem
    split at hmem
    · exact braceAt_of_mem_closings hmem
    split at hmem
    · exact (braceAt_of_mem_closings hmem).mono (List.tail_suffix _)
    · exact (braceAt_of_mem_closingsFrom hmem).mono (List.tail_suffix _)
  have hnotes : full.notes = [] := by
    rw [read_of_some hfull] at hquiet
    split at hquiet
    · exact (List.append_eq_nil_iff.1 hquiet).1
    split at hquiet
    · exact (List.append_eq_nil_iff.1 hquiet).1
    · exact (List.append_eq_nil_iff.1 hquiet).1
  have hleft := hbrace.suffix (by omega) (List.suffix_append ts braces) (selector?_suffix hfull)
  obtain ⟨s, hs, rfl⟩ := selector?_ahead (nextIsMark_of_braces hbraces hne) hfull ⟨hleft, hnotes⟩
  exact ⟨s, hs, rfl, hnotes⟩

/-- **A document that ends with braces is the same without them**, if each of them closes a block and nothing was
reported, except that each is reported as missing. -/
theorem read_truncated {ts : List Token} {blocks : List Block}
    (hclosings : ∀ n < braces.length, n ∈ closings (ts ++ braces))
    (hvalue : (read (ts ++ braces)).value = .ok blocks) (hquiet : (read (ts ++ braces)).notes = []) :
    read ts = ⟨.ok blocks, [], List.replicate braces.length missingBrace⟩ := by
  have hmore := nextIsMark_of_braces hbraces hne
  match ts with
  | [] =>
    -- outside of all blocks a brace closes nothing
    have hlast := hclosings 0 (List.length_pos_iff.2 hne)
    rw [List.nil_append, closings_of_braces hbraces] at hlast
    cases hlast
  | t :: ts =>
    rw [List.cons_append] at hclosings hvalue hquiet
    cases hfull : selector? t (ts ++ braces) with
    | none =>
      have hnone : selector? t ts = none := selector?_eq_none_iff.2 (selector?_eq_none_iff.1 hfull)
      rw [closings_of_none hfull] at hclosings
      rw [read_of_none hfull] at hvalue hquiet
      rw [read_of_none hnone]
      exact read_truncated hclosings hvalue hquiet
    | some full =>
      obtain ⟨s, hs, rfl, hnotes⟩ := exists_selector_of_closings hbraces hne hfull hclosings hquiet
      rw [closings_of_some hfull] at hclosings
      rw [read_of_some hfull] at hvalue hquiet
      have hsuffix := (selector?_suffix hs).length_le
      have htail := (List.tail_suffix s.rest).length_le
      have hafter : ∀ p : Parsed (Except Fault (List Block)), p.after s.notes = p := by
        intro p
        rw [hnotes]
        rfl
      have hsign : "\x7d" ≠ "=" := by decide
      have hbracket : "\x7d" ≠ "\x7b" := by decide
      rw [read_of_some hs, hafter, hafter, hafter]
      simp only [Parsed.followedBy, hafter, nextIsMark_ahead hmore hsign] at hclosings hvalue hquiet
      by_cases hequals : (!nextIsMark s.rest "=") = true
      · simp only [if_pos hequals] at hclosings hvalue hquiet ⊢
        exact read_truncated hclosings hvalue hquiet
      have hrest : s.rest ≠ [] := by
        intro hnil
        rw [hnil] at hequals
        exact hequals rfl
      simp only [if_neg hequals, List.tail_append_of_ne_nil hrest, nextIsMark_ahead hmore hbracket]
        at hclosings hvalue hquiet ⊢
      by_cases hopen : (!nextIsMark s.rest.tail "\x7b") = true
      · simp only [if_pos hopen] at hclosings hvalue hquiet ⊢
        exact read_truncated hclosings hvalue hquiet
      · simp only [if_neg hopen] at hclosings hvalue hquiet ⊢
        refine readFrom_truncated hbraces hne (by simpa using hopen) hclosings hvalue hquiet fun rest more hbehind => ?_
        have hlength := hbehind.length_le
        exact read_truncated
termination_by ts.length
decreasing_by all_goals simp only [List.length_cons]; omega

end Truncated

/-- **Missing braces at the end lose nothing.** If a document is read without a report and its last `k` tokens are
braces of which each closes a block, then it gives the same blocks when the last `j ≤ k` of them are cut off, and all
that is reported is that `j` braces are missing: `j` times the same, as a mistake of form and without a place. -/
theorem read_unclosed (tokens : List Token) (blocks : List Block) (k : Nat)
    (hvalue : (read tokens).value = .ok blocks) (hquiet : (read tokens).notes = [])
    (hk : ∀ n < k, n ∈ closings tokens) (j : Nat) (hj : j ≤ k) :
    read (tokens.take (tokens.length - j)) = ⟨.ok blocks, [], List.replicate j missingBrace⟩ ∧
      (∀ t ∈ tokens.drop (tokens.length - j), t.isMark "\x7d" = true) ∧ j ≤ tokens.length ∧
      missingBrace.message = "Expected '\x7d' but got 'EOF'" ∧ missingBrace.kind = .syntactic ∧
      missingBrace.line = none ∧ missingBrace.column = none := by
  have hlength : j ≤ tokens.length := by
    cases j with
    | zero => exact Nat.zero_le _
    | succ i => exact (braceAt_of_mem_closings (hk i hj)).lt
  have hcount : (tokens.drop (tokens.length - j)).length = j := by
    rw [List.length_drop]
    omega
  have hbraces := braces_of_closings (List.drop_suffix (tokens.length - j) tokens) fun n hn => hk n (by omega)
  have hclosings : ∀ n < (tokens.drop (tokens.length - j)).length, n ∈ closings tokens := fun n hn => hk n (by omega)
  refine ⟨?_, hbraces, hlength, by decide, rfl, rfl, rfl⟩
  by_cases hnone : tokens.drop (tokens.length - j) = []
  · -- nothing is cut off
    rw [hnone] at hcount
    obtain rfl : 0 = j := hcount
    rw [Nat.sub_zero, List.take_length]
    show Parsed.mk (read tokens).value (read tokens).rest (read tokens).notes = ⟨.ok blocks, [], []⟩
    rw [hvalue, hquiet, rest_eq_nil tokens blocks hvalue]
  · have hsplit := List.take_append_drop (tokens.length - j) tokens
    have hcut : read (tokens.take (tokens.length - j)) =
        ⟨.ok blocks, [], List.replicate (tokens.drop (tokens.length - j)).length missingBrace⟩ := by
      apply read_truncated hbraces hnone
      · rwa [hsplit]
      · rwa [hsplit]
      · rwa [hsplit]
    rwa [hcount] at hcut

end Document

namespace Sample

/-- A document that ends with a brace inside a value and with two braces that close blocks. -/
def nested : List Token := Token.significant "p = \x7b a = \x7b hover = function() b = 1 end, c = 2\x7b0\x7d \x7d \x7d"

def nestedBlock : Block := ⟨"p a", [⟨"c", "2\x7b0\x7d"⟩], [⟨"p a:hover", [⟨"b", "1"⟩], []⟩]⟩

end Sample

theorem Document.read_unclosed_nested :
    (read Sample.nested).value = .ok [⟨"p", [], [Sample.nestedBlock]⟩] ∧ (read Sample.nested).notes = [] ∧
      (∀ n < 2, n ∈ closings Sample.nested) ∧
      read (Sample.nested.take (Sample.nested.length - 2)) =
        ⟨.ok [⟨"p", [], [Sample.nestedBlock]⟩], [], [missingBrace, missingBrace]⟩ := by
  have hvalue : (read Sample.nested).value = .ok [⟨"p", [], [Sample.nestedBlock]⟩] := by decide +kernel
  have hquiet : (read Sample.nested).notes = [] := by decide +kernel
  have hclosings : ∀ n < 2, n ∈ closings Sample.nested := by decide +kernel
  obtain ⟨hread, -⟩ := read_unclosed Sample.nested _ 2 hvalue hquiet hclosings 2 (Nat.le_refl 2)
  exact ⟨hvalue, hquiet, hclosings, hread⟩

end NestedStyles
