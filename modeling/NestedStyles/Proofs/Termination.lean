import NestedStyles.Proofs.Document.Unclosed
import NestedStyles.Stream
import NestedStyles.Proofs.Preliminaries

/-!
# Reading comes to an end

Blocks, function literals and documents are read round by round. Every round takes a token or, at the end of the input,
closes a block that is still open, so there are only so many of them. A block ends with its closing brace and nowhere
before, unless the input does.

- `Rounds`: the outcome that a loop has after a number of rounds.
- `Rounds.exists_le`: a loop whose rounds lower a measure and keep what it will give comes to an end with just that.
- `Nesting.step_progress`: what a round of a block brings closer to the end.
- `Nesting.run_closed`: the last token of a block.
- `Declaration.turn`, `Document.turn`: the rounds of function literals and of documents.
- `Stream.perform_ends`: all three loops, from any place in any list of tokens.
-/

namespace NestedStyles

/-! ## Loops -/

/-- What a round of a loop leads to: a state for the next round, or the outcome. -/
inductive Turn (σ ω : Type) where
  | more (s : σ)
  | done (outcome : ω)

/-- The loop that begins in the state `s` has its outcome after `n` rounds. -/
inductive Rounds {σ ω : Type} (turn : σ → Turn σ ω) : Nat → σ → ω → Prop
  | last {s : σ} {outcome : ω} (h : turn s = .done outcome) : Rounds turn 1 s outcome
  | next {n : Nat} {s s' : σ} {outcome : ω} (h : turn s = .more s') (hmore : Rounds turn n s' outcome) :
      Rounds turn (n + 1) s outcome

section Loops

variable {σ ω : Type} {turn : σ → Turn σ ω} {goal : σ → ω} {measure : σ → Nat}

/-- A round from `s` that leads to what the loop has to give, with a smaller measure if there are more rounds. -/
def Turn.LeadsTo (goal : σ → ω) (measure : σ → Nat) (s : σ) : Turn σ ω → Prop
  | .more s' => goal s' = goal s ∧ measure s' < measure s
  | .done outcome => outcome = goal s

/-- **A loop comes to an end** if every round lowers a measure; if no round changes what the loop has to give, then
this is the outcome. -/
theorem Rounds.exists_le (h : ∀ s, (turn s).LeadsTo goal measure s) (s : σ) :
    ∃ n ≤ measure s + 1, Rounds turn n s (goal s) := by
  induction hm : measure s using Nat.strongRecOn generalizing s with
  | ind m ih =>
    have hs := h s
    cases hturn : turn s with
    | done outcome =>
      rw [hturn] at hs
      obtain rfl : outcome = goal s := hs
      exact ⟨1, by omega, .last hturn⟩
    | more s' =>
      rw [hturn] at hs
      obtain ⟨hgoal, hlt⟩ : goal s' = goal s ∧ measure s' < measure s := hs
      obtain ⟨n, hn, hrounds⟩ := ih (measure s') (by omega) s' rfl
      rw [hgoal] at hrounds
      exact ⟨n + 1, by omega, .next hturn hrounds⟩

end Loops

/-! ## Blocks -/

namespace Nesting

/-- How many blocks are open. -/
def depth (s : Nesting) : Nat := s.below.length + 1

/-- How many blocks are open when a round is over. None is when the loop is. -/
def Round.depth : Round → Nat
  | .more s => s.depth
  | .done _ => 0

def Round.turn : Round → Turn Nesting (Parsed (Except Fault Block))
  | .more s => .more s
  | .done outcome => .done outcome

def turn (s : Nesting) : Turn Nesting (Parsed (Except Fault Block)) := s.step.turn

/-- What a round brings closer to the end: it takes tokens or, at the end of the input, closes a block. In any case
twice the number of tokens left and the number of open blocks are less than before. -/
structure Progress (s : Nesting) (r : Round) : Prop where
  closer : (r.rest <:+ s.rest ∧ r.rest.length < s.rest.length) ∨ (s.rest = [] ∧ r.rest = [] ∧ r.depth < s.depth)
  falls : 2 * r.rest.length + r.depth < 2 * s.rest.length + s.depth

variable {s : Nesting}

theorem step_suffix_tail {t : Token} {ts : List Token} (hrest : s.rest = t :: ts) : s.step.rest <:+ ts := by
  by_cases hbrace : t.isMark "\x7d" = true
  · exact step_brace_suffix hrest hbrace
  · rw [step_of_entry hrest hbrace]
    exact (absorb_suffix ..).trans (Entry.read_suffix ..)

theorem close_of_nil (hrest : s.rest = []) : s.close.rest = [] ∧ s.close.depth < s.depth := by
  unfold close
  rw [hrest]
  split
  · exact ⟨rfl, Nat.succ_pos _⟩
  · next f fs hbelow =>
    refine ⟨rfl, ?_⟩
    show fs.length + 1 < s.below.length + 1
    rw [hbelow, List.length_cons]
    omega

theorem step_falls (s : Nesting) : 2 * s.step.rest.length + s.step.depth < 2 * s.rest.length + s.depth := by
  have hsuffix := (step_suffix s).length_le
  cases hstep : s.step with
  | done outcome =>
    rw [hstep] at hsuffix
    show 2 * outcome.rest.length + 0 < 2 * s.rest.length + (s.below.length + 1)
    simp only [Round.rest] at hsuffix
    omega
  | more s' =>
    have hlt : 2 * s'.rest.length + s'.below.length < 2 * s.rest.length + s.below.length := step_lt hstep
    show 2 * s'.rest.length + (s'.below.length + 1) < 2 * s.rest.length + (s.below.length + 1)
    omega

/-- **Every round comes closer to the end.** -/
theorem step_progress (s : Nesting) : s.Progress s.step := by
  refine ⟨?_, step_falls s⟩
  cases hrest : s.rest with
  | nil =>
    rw [step_of_nil hrest]
    exact .inr ⟨rfl, close_of_nil hrest⟩
  | cons t ts =>
    have htail := step_suffix_tail hrest
    exact .inl ⟨htail.trans (List.suffix_cons t ts), Nat.lt_succ_of_le htail.length_le⟩

theorem turn_leadsTo (s : Nesting) : s.turn.LeadsTo run measure s := by
  cases hstep : s.step with
  | done outcome =>
    rw [turn, hstep]
    exact (run_of_done hstep).symm
  | more s' =>
    rw [turn, hstep]
    exact ⟨(run_of_more hstep).symm, step_lt hstep⟩

/-- The last round of a block takes its closing brace, or there is nothing left to take. -/
theorem step_closed {tokens : List Token} (hrest : s.rest <:+ tokens) :
    s.step.Satisfies (fun _ => True) fun outcome => ∀ b, outcome.value = .ok b →
      outcome.rest = [] ∨ ∃ t, t.isMark "\x7d" = true ∧ t :: outcome.rest <:+ tokens := by
  apply step_cases
  case ends =>
    rintro (hnil | hmark) _ b _
    · exact .inl (by rw [hnil]; rfl)
    · obtain ⟨t, ts, hts, hbrace⟩ := exists_brace hmark
      rw [hts] at hrest ⊢
      exact .inr ⟨t, hbrace, by rwa [expect_of_isMark hbrace]⟩
  case closes => exact fun _ _ _ _ => trivial
  case fails => rintro _ _ _ _ _ _ _ b ⟨⟩
  case opens => exact fun _ _ _ _ _ _ _ => trivial
  case adds => exact fun _ _ _ _ _ _ _ _ => trivial

/-- **A block ends with its closing brace**, unless the input ends before. -/
theorem run_closed : ∀ b, s.run.value = .ok b →
    s.run.rest = [] ∨ ∃ t, t.isMark "\x7d" = true ∧ t :: s.run.rest <:+ s.rest :=
  run_invariant (fun _ hrest _ => step_closed hrest) (List.suffix_refl s.rest) trivial

end Nesting

theorem Block.read_closed {selector : String} {tokens : List Token} {b : Block}
    (hvalue : (read selector tokens).value = .ok b) :
    (read selector tokens).rest = [] ∨
      ∃ t, t.isMark "\x7d" = true ∧ t :: (read selector tokens).rest <:+ tokens := by
  rcases Nesting.run_closed b hvalue with hnil | ⟨t, hbrace, hlast⟩
  · exact .inl hnil
  · exact .inr ⟨t, hbrace, hlast.trans (expect_suffix "\x7b" tokens)⟩

/-! ## Function literals and documents -/

/-- What a loop has collected so far, the tokens left and the diagnostics. -/
structure Collected (α : Type) where
  items : List α := []
  rest : List Token
  notes : List Diagnostic := []

namespace Collected

variable {α β : Type}

def outcome (s : Collected α) : Parsed (Except Fault (List α)) := ⟨.ok s.items, s.rest, s.notes⟩

/-- The next round goes on behind what was read, with what it gives behind the items so far. A fault ends the loop. -/
def turn (s : Collected α) (p : Parsed (Except Fault β)) (found : β → List α) (left : List Token → List Token) :
    Turn (Collected α) (Parsed (Except Fault (List α))) :=
  match p.value with
  | .error fault => .done ⟨.error fault, p.rest, s.notes ++ p.notes⟩
  | .ok b => .more ⟨s.items ++ found b, left p.rest, s.notes ++ p.notes⟩

/-- What a loop has to give, if `read` gives it for the tokens that are left. -/
def goal (read : List Token → Parsed (Except Fault (List α))) (s : Collected α) : Parsed (Except Fault (List α)) :=
  ((read s.rest).map (Except.map (s.items ++ ·))).after s.notes

variable {read : List Token → Parsed (Except Fault (List α))} {s s' : Collected α}

theorem goal_of_start (tokens : List Token) (notes : List Diagnostic) :
    goal read { rest := tokens, notes } = (read tokens).after notes := by
  show ((read tokens).map (Except.map ([] ++ ·))).after notes = (read tokens).after notes
  generalize read tokens = p
  obtain ⟨value, rest, more⟩ := p
  cases value <;> rfl

theorem length_lt {t : Token} {ts rest : List Token} (hrest : s.rest = t :: ts) (hsuffix : rest <:+ ts) :
    rest.length < s.rest.length := by
  rw [hrest, List.length_cons]
  exact Nat.lt_succ_of_le hsuffix.length_le

theorem outcome_eq_goal (h : read s.rest = ⟨.ok [], s.rest, []⟩) : s.outcome = goal read s := by
  simp [outcome, goal, h, Parsed.map, Parsed.after, Except.map]

section Later

variable {notes : List Diagnostic} (hitems : s'.items = s.items) (hnotes : s'.notes = s.notes ++ notes)
include hitems hnotes

/-- A round that only steps over tokens. -/
theorem more_leadsTo (hread : read s.rest = (read s'.rest).after notes) (hlt : s'.rest.length < s.rest.length) :
    (Turn.more s').LeadsTo (goal read) (·.rest.length) s := by
  refine ⟨?_, hlt⟩
  simp [goal, hread, hitems, hnotes, Parsed.map, Parsed.after]

/-- A round that reads something. -/
theorem turn_leadsTo {p : Parsed (Except Fault β)} {found : β → List α} {left : List Token → List Token}
    (hread : read s.rest = (p.andThen fun b rest => (read (left rest)).map (Except.map (found b ++ ·))).after notes)
    (hlt : (left p.rest).length < s.rest.length) :
    (s'.turn p found left).LeadsTo (goal read) (·.rest.length) s := by
  obtain ⟨value, rest, more⟩ := p
  cases value with
  | error fault =>
    show _ = goal read s
    simp [goal, hread, hnotes, Parsed.andThen, Parsed.map, Parsed.after, Except.map]
  | ok b =>
    refine ⟨?_, hlt⟩
    cases hvalue : (read (left rest)).value <;>
      simp [goal, hread, hitems, hnotes, Parsed.andThen, Parsed.map, Parsed.after, Except.map, hvalue]

end Later

end Collected

namespace Declaration

/-- A function literal behind `function ( )`, with nothing read yet. -/
def begin (tokens : List Token) : Collected Declaration :=
  let head := expect "function" tokens
  let opened := expect "(" head.rest
  let closed := expect ")" opened.rest
  { rest := closed.rest, notes := head.notes ++ opened.notes ++ closed.notes }

/-- What is left to do when the loop of a function literal is over. -/
def finish (p : Parsed (Except Fault (List Declaration))) : Parsed (Except Fault (List Declaration)) :=
  p.andThen fun declarations rest => (expect "end" rest).map fun _ => .ok declarations

/-- One round of a function literal: the end of the loop, a token that is no key, a key without a value, or a pair. -/
def turn (s : Collected Declaration) : Turn (Collected Declaration) (Parsed (Except Fault (List Declaration))) :=
  match s.rest with
  | [] => .done s.outcome
  | t :: ts =>
    if t.isNamed "end" then .done s.outcome
    else if !t.isIdentifier then .more { s with rest := ts }
    else if !nextIsMark ts "=" then .more { s with rest := skipComma ts }
    else s.turn (Value.read ts.tail) (fun value => (ofPair? t.text value).toList) skipComma

theorem turn_leadsTo (s : Collected Declaration) : (turn s).LeadsTo (Collected.goal readAll) (·.rest.length) s := by
  have hnotes : s.notes = s.notes ++ [] := (List.append_nil _).symm
  unfold turn
  split
  · next hrest =>
    apply Collected.outcome_eq_goal
    rw [hrest, readAll]
  · next t ts hrest =>
    have hread := hrest ▸ readAll_cons t ts
    split
    · next hend =>
      apply Collected.outcome_eq_goal
      rw [hread, if_pos hend, hrest]
    next hend =>
    rw [if_neg hend] at hread
    split
    · next hkey =>
      rw [if_pos hkey] at hread
      exact Collected.more_leadsTo rfl hnotes hread (Collected.length_lt hrest (List.suffix_refl _))
    next hkey =>
    rw [if_neg hkey] at hread
    split
    · next hequals =>
      rw [if_pos hequals] at hread
      exact Collected.more_leadsTo rfl hnotes hread (Collected.length_lt hrest (skipComma_suffix ts))
    next hequals =>
    rw [if_neg hequals] at hread
    have hvalue := (Value.read_suffix ts.tail).trans (List.tail_suffix ts)
    exact Collected.turn_leadsTo rfl hnotes hread (Collected.length_lt hrest ((skipComma_suffix _).trans hvalue))

theorem readFunction_eq_finish (tokens : List Token) :
    readFunction tokens = finish (Collected.goal readAll (begin tokens)) := by
  rw [begin, Collected.goal_of_start, finish, Parsed.andThen_after]
  rfl

theorem begin_suffix (tokens : List Token) : (begin tokens).rest <:+ tokens :=
  (expect_suffix ")" _).trans <| (expect_suffix "(" _).trans (expect_suffix "function" tokens)

end Declaration

namespace Document

/-- One round of a document: its end, a token that begins no selector, a selector without a block, or a block. -/
def turn (s : Collected Block) : Turn (Collected Block) (Parsed (Except Fault (List Block))) :=
  match s.rest with
  | [] => .done s.outcome
  | t :: ts =>
    match selector? t ts with
    | none => .more { s with rest := ts }
    | some p =>
      let s' : Collected Block := { s with rest := p.rest, notes := s.notes ++ p.notes }
      if !nextIsMark p.rest "=" then .more s'
      else if !nextIsMark p.rest.tail "\x7b" then .more { s' with rest := p.rest.tail }
      else s'.turn (Block.read p.value p.rest.tail) (fun b => [b]) id

theorem turn_leadsTo (s : Collected Block) : (turn s).LeadsTo (Collected.goal read) (·.rest.length) s := by
  unfold turn
  split
  · next hrest =>
    apply Collected.outcome_eq_goal
    rw [hrest, read]
  · next t ts hrest =>
    split
    · next hnone =>
      have hread : read s.rest = read ts := by rw [hrest, read_of_none hnone]
      exact Collected.more_leadsTo rfl (List.append_nil _).symm hread (Collected.length_lt hrest (List.suffix_refl _))
    · next p hselector =>
      have hread := hrest ▸ read_of_some hselector
      have hsuffix := selector?_suffix hselector
      have htail := (List.tail_suffix p.rest).trans hsuffix
      dsimp only
      split
      · next hequals =>
        rw [if_pos hequals] at hread
        exact Collected.more_leadsTo rfl rfl hread (Collected.length_lt hrest hsuffix)
      next hequals =>
      rw [if_neg hequals] at hread
      split
      · next hbrace =>
        rw [if_pos hbrace] at hread
        exact Collected.more_leadsTo rfl rfl hread (Collected.length_lt hrest htail)
      next hbrace =>
      rw [if_neg hbrace] at hread
      apply Collected.turn_leadsTo
      · rfl
      · rfl
      · exact hread
      · exact Collected.length_lt hrest ((Block.read_suffix ..).trans htail)

end Document

/-! ## Streams -/

namespace Stream

/-- Between two states of a stream tokens were taken, and the last of them was the given mark. -/
def TookLast (s s' : Stream) (mark : String) : Prop :=
  s.position < s'.position ∧ ∃ t, s'.tokens[s'.position - 1]? = some t ∧ t.isMark mark = true

variable {α : Type} {s : Stream} {p : Parsed α}

theorem isAtEnd_advance (h : p.rest = []) : (s.advance p).isAtEnd = true := by
  simp [isAtEnd, advance, h]

theorem tookLast_advance {t : Token} {mark : String} (ht : t.isMark mark = true) (h : t :: p.rest <:+ s.rest) :
    s.TookLast (s.advance p) mark := by
  have hlength := h.length_le
  rw [rest, List.length_drop, List.length_cons] at hlength
  obtain ⟨front, hfront⟩ := h.trans (List.drop_suffix s.position s.tokens)
  constructor
  · show s.position < s.tokens.length - p.rest.length
    omega
  · refine ⟨t, ?_, ht⟩
    show s.tokens[s.tokens.length - p.rest.length - 1]? = some t
    have hplace : s.tokens.length - p.rest.length - 1 = front.length := by
      rw [← hfront, List.length_append, List.length_cons]
      omega
    rw [hplace, ← hfront]
    simp

/-- A block that was read from a stream leaves it at the end, or behind the closing brace. -/
theorem perform_block_closed {selector : String} {reply : Reply} {s' : Stream}
    (h : s.perform (.block selector) = (.ok reply, s')) : s'.isAtEnd = true ∨ s.TookLast s' "\x7d" := by
  obtain ⟨hreply, rfl⟩ := Prod.mk.inj h
  obtain ⟨b, hvalue, -⟩ := map_eq_ok_iff.1 hreply
  rcases Block.read_closed hvalue with hnil | ⟨t, hbrace, hlast⟩
  · exact .inl (isAtEnd_advance hnil)
  · exact .inr (tookLast_advance hbrace hlast)

theorem perform_document_atEnd {reply : Reply} {s' : Stream} (h : s.perform .document = (.ok reply, s')) :
    s'.isAtEnd = true := by
  obtain ⟨hreply, rfl⟩ := Prod.mk.inj h
  obtain ⟨blocks, hvalue, -⟩ := map_eq_ok_iff.1 hreply
  exact isAtEnd_advance (Document.rest_eq_nil s.rest blocks hvalue)

/-- **All loops come to an end**, from any place in any list of tokens. Every round of a block takes tokens or, at the
end of the input, closes an open block, so that twice the number of tokens left plus the number of open blocks falls;
the loop is over after so many rounds, with the reply of the stream, and unless there was a fault the stream is at its
end or just behind a closing brace. The loops of function literals and of documents are over after as many rounds as
there are tokens and one more, and a document is read to the end. -/
theorem perform_ends (s : Stream) (selector : String) :
    (∀ x : Nesting, x.Progress x.step) ∧
    (∃ n ≤ 2 * s.rest.length + 1, ∃ p, Rounds Nesting.turn n (Nesting.begin selector s.rest) p ∧
      s.perform (.block selector) = (p.value.map .body, s.advance p)) ∧
    (∀ reply s', s.perform (.block selector) = (.ok reply, s') → s'.isAtEnd = true ∨ s.TookLast s' "\x7d") ∧
    (∃ n ≤ s.rest.length + 1, ∃ p, Rounds Declaration.turn n (Declaration.begin s.rest) p ∧
      s.perform .functionBlock =
        ((Declaration.finish p).value.map .declarations, s.advance (Declaration.finish p))) ∧
    (∃ n ≤ s.rest.length + 1, ∃ p, Rounds Document.turn n { rest := s.rest } p ∧
      s.perform .document = (p.value.map .blocks, s.advance p)) ∧
    (∀ reply s', s.perform .document = (.ok reply, s') → s'.isAtEnd = true) := by
  refine ⟨Nesting.step_progress, ?_, fun _ _ => perform_block_closed, ?_, ?_, fun _ _ => perform_document_atEnd⟩
  · obtain ⟨n, hn, hrounds⟩ := Rounds.exists_le Nesting.turn_leadsTo (Nesting.begin selector s.rest)
    have hle := (expect_suffix "\x7b" s.rest).length_le
    have hmeasure : (Nesting.begin selector s.rest).measure = 2 * (expect "\x7b" s.rest).rest.length := rfl
    exact ⟨n, by omega, _, hrounds, rfl⟩
  · obtain ⟨n, hn, hrounds⟩ := Rounds.exists_le Declaration.turn_leadsTo (Declaration.begin s.rest)
    have hle := (Declaration.begin_suffix s.rest).length_le
    refine ⟨n, by omega, _, hrounds, ?_⟩
    rw [← Declaration.readFunction_eq_finish]
    rfl
  · obtain ⟨n, hn, hrounds⟩ := Rounds.exists_le Document.turn_leadsTo { rest := s.rest }
    refine ⟨n, hn, _, hrounds, ?_⟩
    rw [Collected.goal_of_start]
    rfl

namespace Sample

/-- A block inside a block, and more behind it. -/
def blocks : Stream := ofSource "\x7b ink = \x7b gap = 1 \x7d \x7d ; p = \x7b"

/-- The same stream when the first block was read. -/
def behindBlock : Stream := { blocks with position := 9 }

/-- The same stream at its end, with a report about the block that is still open there. -/
def exhausted : Stream := { blocks with position := 13, notes := [missingBrace] }

end Sample

theorem perform_ends_blocks :
    (∃ n ≤ 27, ∃ p, Rounds Nesting.turn n (Nesting.begin "a" Sample.blocks.rest) p ∧
      p.value = .ok ⟨"a", [], [⟨"a ink", [⟨"gap", "1"⟩], []⟩]⟩) ∧
    (Sample.behindBlock.isAtEnd = false ∧ Sample.blocks.TookLast Sample.behindBlock "\x7d") ∧
    Sample.exhausted.isAtEnd = true := by
  have hblock : Sample.blocks.perform (.block "a") =
      (.ok (.body ⟨"a", [], [⟨"a ink", [⟨"gap", "1"⟩], []⟩]⟩), Sample.behindBlock) := by decide +kernel
  have hdocument : Sample.behindBlock.perform .document =
      (.ok (.blocks [⟨"p", [], []⟩]), Sample.exhausted) := by decide +kernel
  have hmore : Sample.behindBlock.isAtEnd = false := by decide +kernel
  have hlength : Sample.blocks.rest.length = 13 := by decide +kernel
  obtain ⟨-, ⟨n, hn, p, hrounds, hreply⟩, hclosed, -⟩ := perform_ends Sample.blocks "a"
  obtain ⟨-, -, -, -, -, hend⟩ := perform_ends Sample.behindBlock "a"
  refine ⟨⟨n, by omega, p, hrounds, ?_⟩, ⟨hmore, ?_⟩, hend _ _ hdocument⟩
  · rw [hblock, Prod.mk.injEq] at hreply
    cases hvalue : p.value with
    | error fault =>
      rw [hvalue] at hreply
      cases hreply.1
    | ok b =>
      rw [hvalue] at hreply
      cases hreply.1
      rfl
  · rcases hclosed _ _ hblock with hatEnd | htook
    · rw [hmore] at hatEnd
      cases hatEnd
    · exact htook

end Stream

end NestedStyles
