import NestedStyles.Document

/-!
# Reading looks no further than what it leaves

What is read depends on the tokens that are taken and on the first that is left. So if something is left, then it does
not matter what else follows: the same is read, and what follows is left too. A block that is closed by a brace of its
own does not even need a token behind it; whether it is, shows in the diagnostics, since at the end of the input a
missing brace is reported without a place.

- `Value.read_followedBy`, `Entry.read_followedBy`: values and entries that leave something.
- `Nesting.exists_of_rest_eq_nil`: with a block open at the end of the input, a diagnostic has no place.
- `Nesting.run_followedBy`, `Block.read_followedBy`: blocks whose diagnostics all have a place.
-/

namespace NestedStyles

/-- The same outcome if more tokens follow. -/
def Parsed.followedBy {α : Type} (p : Parsed α) (more : List Token) : Parsed α := { p with rest := p.rest ++ more }

/-- The outcome is `a`, and every diagnostic has a place. -/
structure Parsed.Settled {α : Type} (p : Parsed (Except Fault α)) (a : α) : Prop where
  ok : p.value = .ok a
  placed : ∀ d ∈ p.notes, d.line ≠ none

namespace Parsed.Settled

variable {α β : Type}

theorem of_after {notes : List Diagnostic} {p : Parsed (Except Fault α)} {a : α} (h : (p.after notes).Settled a) :
    p.Settled a :=
  ⟨h.ok, fun d hd => h.placed d (List.mem_append_right _ hd)⟩

theorem of_map {f : α → β} {p : Parsed (Except Fault α)} {b : β} (h : (p.map (Except.map f)).Settled b) :
    ∃ a, p.Settled a ∧ f a = b := by
  obtain ⟨value, rest, notes⟩ := p
  cases value with
  | error fault => cases h.ok
  | ok a => exact ⟨a, ⟨rfl, h.placed⟩, Except.ok.inj h.ok⟩

/-- What is settled in two parts is settled in each. -/
theorem of_andThen {p : Parsed (Except Fault α)} {next : α → List Token → Parsed (Except Fault β)} {b : β}
    (h : (p.andThen next).Settled b) : ∃ a, p.Settled a ∧ (next a p.rest).Settled b := by
  obtain ⟨value, rest, notes⟩ := p
  cases value with
  | error fault => cases h.ok
  | ok a => exact ⟨a, ⟨rfl, fun d hd => h.placed d (List.mem_append_left _ hd)⟩, h.of_after⟩

end Parsed.Settled

section Readers

variable {α β : Type} (more : List Token)

/-! ## Single tokens -/

theorem head?_followedBy {tokens : List Token} (h : tokens ≠ []) : (tokens ++ more).head? = tokens.head? := by
  obtain ⟨t, ts, rfl⟩ := List.exists_cons_of_ne_nil h
  rfl

theorem nextIsMark_followedBy {tokens : List Token} (h : tokens ≠ []) (mark : String) :
    nextIsMark (tokens ++ more) mark = nextIsMark tokens mark := by
  rw [nextIsMark, nextIsMark, head?_followedBy more h]

theorem nextIsNamed_followedBy {tokens : List Token} (h : tokens ≠ []) (name : String) :
    nextIsNamed (tokens ++ more) name = nextIsNamed tokens name := by
  rw [nextIsNamed, nextIsNamed, head?_followedBy more h]

theorem skipComma_followedBy {tokens : List Token} (h : tokens ≠ []) :
    skipComma (tokens ++ more) = skipComma tokens ++ more := by
  rw [skipComma, skipComma, nextIsMark_followedBy more h]
  split
  · exact List.tail_append_of_ne_nil h
  · rfl

/-- With a token left, what is expected does not depend on what follows. -/
theorem expect_followedBy {tokens : List Token} (h : tokens ≠ []) (wanted : String) :
    expect wanted (tokens ++ more) = (expect wanted tokens).followedBy more := by
  obtain ⟨t, ts, rfl⟩ := List.exists_cons_of_ne_nil h
  rw [List.cons_append, expect, expect]
  split <;> rfl

theorem Parsed.rest_ne_nil_of_andThen {p : Parsed (Except Fault α)} {next : α → List Token → Parsed (Except Fault β)}
    (h : (p.andThen next).rest ≠ []) (hnext : ∀ a rest, (next a rest).rest <:+ rest) : p.rest ≠ [] :=
  (andThen_suffix (List.suffix_refl _) hnext).ne_nil h

/-- An outcome is continued the same if more tokens follow, when this is so for the value it has. -/
theorem Parsed.andThen_followedBy_of_ok {p : Parsed (Except Fault α)}
    {next : α → List Token → Parsed (Except Fault β)}
    (hnext : ∀ a, p.value = .ok a → next a (p.rest ++ more) = (next a p.rest).followedBy more) :
    (p.followedBy more).andThen next = (p.andThen next).followedBy more := by
  obtain ⟨value, rest, notes⟩ := p
  cases value with
  | error fault => rfl
  | ok a =>
    simp only [andThen, followedBy, hnext a rfl]
    rfl

/-- Two parts that leave a token are read the same, since the first leaves one for the second. -/
theorem Parsed.andThen_followedBy {p : Parsed (Except Fault α)} {next : α → List Token → Parsed (Except Fault β)}
    (h : (p.andThen next).rest ≠ [])
    (hnext : ∀ a, (next a p.rest).rest ≠ [] → next a (p.rest ++ more) = (next a p.rest).followedBy more) :
    (p.followedBy more).andThen next = (p.andThen next).followedBy more := by
  refine andThen_followedBy_of_ok more fun a ha => hnext a ?_
  rwa [andThen_of_ok ha] at h

/-! ## Values -/

theorem takeWhile_followedBy {p : Token → Bool} {tokens : List Token} (h : tokens.dropWhile p ≠ []) :
    (tokens ++ more).takeWhile p = tokens.takeWhile p ∧ (tokens ++ more).dropWhile p = tokens.dropWhile p ++ more := by
  induction tokens with
  | nil => exact absurd rfl h
  | cons t ts ih =>
    by_cases ht : p t = true
    · rw [List.dropWhile_cons_of_pos ht] at h
      obtain ⟨htake, hdrop⟩ := ih h
      simp [ht, htake, hdrop]
    · simp [ht]

/-- What follows a call does not matter to it once there is a closing parenthesis. -/
theorem Color.call_followedBy_of_closed {tokens : List Token}
    (hclosed : ((expect "(" (expect "." tokens.tail).rest.tail).rest.dropWhile fun t => !t.isMark ")") ≠ []) :
    call (tokens ++ more) = (call tokens).followedBy more := by
  -- from the end to the beginning: what is left at each step has more left behind it
  have hopened := (expect_suffix "(" _).ne_nil ((List.dropWhile_suffix _).ne_nil hclosed)
  have hname := (List.tail_suffix _).ne_nil hopened
  have htail := (expect_suffix "." _).ne_nil hname
  have htokens := (List.tail_suffix _).ne_nil htail
  obtain ⟨htake, hdrop⟩ := takeWhile_followedBy more hclosed
  simp only [call, List.tail_append_of_ne_nil htokens, expect_followedBy more htail, Parsed.followedBy,
    List.tail_append_of_ne_nil hname, head?_followedBy more hname, expect_followedBy more hopened, htake, hdrop,
    expect_followedBy more hclosed]

theorem Color.call_followedBy {tokens : List Token} (h : (call tokens).rest ≠ []) :
    call (tokens ++ more) = (call tokens).followedBy more :=
  call_followedBy_of_closed more ((expect_suffix ")" _).ne_nil h)

namespace Value

theorem stops_followedBy {t : Token} {ts : List Token} (h : stops t ts = true) : stops t (ts ++ more) = true := by
  cases ts with
  | nil =>
    have hnone : nextIsMark [] "=" = false := rfl
    rw [stops, hnone, Bool.and_false, Bool.or_false] at h
    rw [stops, h, Bool.true_or]
  | cons u us => exact h

/-- A value that ends before the last token is ended by a token. -/
theorem gather_followedBy {depth : Depth} {previous : Option Token} {text : String} {tokens : List Token}
    (h : (gather depth previous text tokens).rest ≠ []) :
    gather depth previous text (tokens ++ more) = (gather depth previous text tokens).followedBy more := by
  induction tokens generalizing depth previous text with
  | nil => exact absurd rfl h
  | cons t ts ih =>
    rw [gather] at h
    by_cases hend : (depth.isZero && stops t ts) = true
    · obtain ⟨hzero, hstops⟩ := Bool.and_eq_true_iff.1 hend
      rw [List.cons_append, gather, gather, if_pos hend, hzero, stops_followedBy more hstops, Bool.true_and, if_pos rfl]
      rfl
    · rw [if_neg hend] at h
      have hts := (gather_suffix ..).ne_nil h
      have hstops : stops t (ts ++ more) = stops t ts := by rw [stops, stops, nextIsMark_followedBy more hts]
      rw [List.cons_append, gather, gather, if_neg hend, hstops, if_neg hend, head?_followedBy more hts, ih h]

/-- A single token that no value takes. -/
theorem of_read_singleton {t : Token} (h : (read [t]).rest ≠ []) :
    (t.isMark "," = true ∨ t.isMark "\x7d" = true) ∨ t.isNamed "end" = true ∨ t.isNamed "function" = true := by
  by_cases habsent : isAbsent t [] = true
  · exact .inr (by simpa [isAbsent, nextIsMark] using habsent)
  · by_cases hstops : stops t [] = true
    · have hmark : (t.isMark "," = true ∨ t.isMark "\x7d" = true) ∨ t.isNamed "end" = true := by
        simpa [stops, nextIsMark] using hstops
      exact hmark.imp_right .inl
    · exact absurd (by simp [read, nextIsMark, habsent, gather, hstops, Parsed.map]) h

theorem read_followedBy {tokens : List Token} (h : (read tokens).rest ≠ []) :
    read (tokens ++ more) = (read tokens).followedBy more := by
  match tokens with
  | [] => exact absurd rfl h
  | [t] =>
    -- whatever follows a token of this kind, it is left and nothing behind it is looked at
    rcases of_read_singleton h with hmark | hname
    · have hkind : t.kind = .punctuation := hmark.elim (Token.isMark_iff.1 · |>.1) (Token.isMark_iff.1 · |>.1)
      have hstops : ∀ ts, stops t ts = true := fun ts => by rcases hmark with h | h <;> simp [stops, h]
      have hnamed : ∀ name, t.isNamed name = false := fun name => by simp [Token.isNamed, hkind]
      have hword : t.isIdentifier = false := by simp [Token.isIdentifier, hkind]
      simp [read, isAbsent, gather, Depth.isZero, hstops, hnamed, hword, Parsed.followedBy, Parsed.map]
    · have hcolor : t.isNamed "color" = false := by
        rcases hname with h | h <;> exact Token.isNamed_of_ne h (by decide)
      have habsent : ∀ ts, isAbsent t ts = true := fun ts => by rcases hname with h | h <;> simp [isAbsent, h]
      simp [read, habsent, hcolor, Parsed.followedBy]
  | t :: u :: us =>
    rw [read] at h
    rw [List.cons_append, List.cons_append, read, read]
    have hahead : ∀ mark, nextIsMark (u :: (us ++ more)) mark = nextIsMark (u :: us) mark := fun _ => rfl
    have habsent : isAbsent t (u :: (us ++ more)) = isAbsent t (u :: us) := rfl
    rw [hahead, habsent]
    split at h
    · next hcolor =>
      rw [if_pos hcolor, if_pos hcolor, ← Color.call_followedBy more h]
      rfl
    split at h
    · next hcolor hkey =>
      rw [if_neg hcolor, if_neg hcolor, if_pos hkey, if_pos hkey]
      rfl
    · next hcolor hkey =>
      rw [if_neg hcolor, if_neg hcolor, if_neg hkey, if_neg hkey]
      exact congrArg (Parsed.map _) (gather_followedBy more h)

end Value

/-! ## Entries -/

theorem bracketedSelector_followedBy {tokens : List Token} (h : (bracketedSelector tokens).rest ≠ []) :
    bracketedSelector (tokens ++ more) = (bracketedSelector tokens).followedBy more := by
  obtain ⟨t, ts, rfl⟩ := List.exists_cons_of_ne_nil ((bracketedSelector_suffix tokens).ne_nil h)
  rw [bracketedSelector] at h
  rw [List.cons_append, bracketedSelector, bracketedSelector]
  split
  · next hliteral =>
    rw [if_pos hliteral] at h
    rw [expect_followedBy more ((expect_suffix "]" ts).ne_nil h)]
    rfl
  · rw [← List.cons_append, expect_followedBy more (List.cons_ne_nil t ts)]
    rfl

namespace Declaration

/-- Declarations that end before the last token end with `end`. -/
theorem readAll_followedBy {tokens : List Token} (h : (readAll tokens).rest ≠ []) :
    readAll (tokens ++ more) = (readAll tokens).followedBy more := by
  match tokens with
  | [] =>
    rw [readAll] at h
    exact absurd rfl h
  | t :: ts =>
    have hcomma := (skipComma_suffix ts).length_le
    have hvalue := ((skipComma_suffix _).trans ((Value.read_suffix ts.tail).trans (List.tail_suffix ts))).length_le
    rw [readAll_cons] at h
    rw [List.cons_append, readAll_cons, readAll_cons]
    split at h
    · next hend =>
      rw [if_pos hend, if_pos hend]
      rfl
    next hend =>
    rw [if_neg hend, if_neg hend]
    split at h
    · next hkey => rw [if_pos hkey, if_pos hkey, readAll_followedBy h]
    next hkey =>
    rw [if_neg hkey, if_neg hkey]
    split at h
    · next hequals =>
      have hts := (skipComma_suffix ts).ne_nil ((readAll_suffix _).ne_nil h)
      rw [nextIsMark_followedBy more hts, if_pos hequals, if_pos hequals, skipComma_followedBy more hts,
        readAll_followedBy h]
    · next hequals =>
      have hrest := Parsed.rest_ne_nil_of_andThen h fun _ rest =>
        (readAll_suffix (skipComma rest)).trans (skipComma_suffix rest)
      have htail := (Value.read_suffix ts.tail).ne_nil hrest
      have hts := (List.tail_suffix ts).ne_nil htail
      rw [nextIsMark_followedBy more hts, if_neg hequals, if_neg hequals, List.tail_append_of_ne_nil hts,
        Value.read_followedBy more hrest]
      refine Parsed.andThen_followedBy more h fun value hmore => ?_
      rw [skipComma_followedBy more hrest, readAll_followedBy hmore]
      rfl
termination_by tokens.length
decreasing_by all_goals simp only [List.length_cons]; omega

theorem readFunction_followedBy {tokens : List Token} (h : (readFunction tokens).rest ≠ []) :
    readFunction (tokens ++ more) = (readFunction tokens).followedBy more := by
  have hbody := Parsed.rest_ne_nil_of_andThen h fun _ rest => expect_suffix "end" rest
  have hclosed := (readAll_suffix _).ne_nil hbody
  have hopened := (expect_suffix ")" _).ne_nil hclosed
  have hhead := (expect_suffix "(" _).ne_nil hopened
  have htokens := (expect_suffix "function" _).ne_nil hhead
  have hend := Parsed.andThen_followedBy more h fun _ _ => by
    rw [expect_followedBy more hbody]
    rfl
  rw [← readAll_followedBy more hbody] at hend
  rw [readFunction, readFunction, expect_followedBy more htokens]
  simp only [Parsed.followedBy, expect_followedBy more hhead, expect_followedBy more hopened] at hend ⊢
  rw [hend]
  rfl

end Declaration

namespace Entry

variable {parent : String} {t : Token} {ts : List Token}

theorem read_bracket_followedBy (hbracket : t.isMark "[" = true) (h : (read parent t ts).rest ≠ []) :
    read parent t (ts ++ more) = (read parent t ts).followedBy more := by
  rw [read, if_pos hbracket] at h
  dsimp only at h
  have hequals : (expect "=" (bracketedSelector ts).rest).rest ≠ [] := by
    split at h
    · exact h
    · exact (skipComma_suffix _).ne_nil h
  have hfragment := (expect_suffix "=" _).ne_nil hequals
  rw [read, read, if_pos hbracket, if_pos hbracket, bracketedSelector_followedBy more hfragment]
  simp only [Parsed.followedBy, expect_followedBy more hfragment, nextIsMark_followedBy more hequals,
    skipComma_followedBy more hequals]
  split <;> rfl

theorem read_key_followedBy (hbracket : ¬t.isMark "[" = true) (hkey : ¬(!t.isIdentifier) = true) (hts : ts ≠ [])
    (hequals : ¬(!nextIsMark ts "=") = true) (h : (read parent t ts).rest ≠ []) :
    read parent t (ts ++ more) = (read parent t ts).followedBy more := by
  have hequals' : ¬(!nextIsMark (ts ++ more) "=") = true := by rwa [nextIsMark_followedBy more hts]
  rw [read_of_key hbracket hkey hequals] at h ⊢
  rw [read_of_key hbracket hkey hequals', List.tail_append_of_ne_nil hts]
  have htail : ts.tail ≠ [] := by
    split at h
    · exact (Declaration.readFunction_suffix _).ne_nil
        (Parsed.rest_ne_nil_of_andThen h fun _ rest => skipComma_suffix rest)
    split at h
    · exact h
    · exact (Value.read_suffix _).ne_nil (Parsed.rest_ne_nil_of_andThen h fun _ rest => skipComma_suffix rest)
  rw [nextIsNamed_followedBy more htail, nextIsMark_followedBy more htail]
  revert h
  split
  · intro h
    have hrest := Parsed.rest_ne_nil_of_andThen h fun _ rest => skipComma_suffix rest
    rw [Declaration.readFunction_followedBy more hrest]
    refine Parsed.andThen_followedBy more h fun _ _ => ?_
    rw [skipComma_followedBy more hrest]
    rfl
  split
  · exact fun _ => rfl
  · intro h
    have hrest := Parsed.rest_ne_nil_of_andThen h fun _ rest => skipComma_suffix rest
    rw [Value.read_followedBy more hrest]
    refine Parsed.andThen_followedBy more h fun _ _ => ?_
    rw [skipComma_followedBy more hrest]
    rfl

theorem read_followedBy (h : (read parent t ts).rest ≠ []) :
    read parent t (ts ++ more) = (read parent t ts).followedBy more := by
  have hts := (read_suffix parent t ts).ne_nil h
  by_cases hbracket : t.isMark "[" = true
  · exact read_bracket_followedBy more hbracket h
  by_cases hkey : (!t.isIdentifier) = true
  · rw [read, read, if_neg hbracket, if_neg hbracket, if_pos hkey, if_pos hkey]
    rfl
  by_cases hequals : (!nextIsMark ts "=") = true
  · rw [read, read, nextIsMark_followedBy more hts, if_neg hbracket, if_neg hbracket, if_neg hkey, if_neg hkey,
      if_pos hequals, if_pos hequals, skipComma_followedBy more hts]
    rfl
  · exact read_key_followedBy more hbracket hkey hts hequals h

end Entry

/-! ## Blocks -/

namespace Nesting

/-- The diagnostics after a round. -/
def Round.notes : Round → List Diagnostic
  | .more s => s.notes.toList
  | .done outcome => outcome.notes

theorem close_notes (s : Nesting) : s.close.notes = s.notes.toList ++ (expect "\x7d" s.rest).notes := by
  unfold close
  split <;> simp [Round.notes]

theorem step_notes (s : Nesting) : s.notes.toList <+: s.step.notes := by
  apply step_cases (motive := fun r => s.notes.toList <+: r.notes)
  case ends => simp [Round.notes]
  case closes => simp [Round.notes]
  case fails => simp [Round.notes]
  case opens => simp [Round.notes]
  case adds => simp [Round.notes]

/-- A run only adds to the diagnostics of its first round. -/
theorem run_notes (s : Nesting) : s.step.notes <+: s.run.notes := by
  fun_induction run s with
  | case1 s outcome h => rw [h]; exact List.prefix_refl _
  | case2 s s' h ih => rw [h]; exact (step_notes s').trans ih

/-- With a block open at the end of the input, a diagnostic has no place. -/
theorem exists_of_rest_eq_nil {s : Nesting} (hrest : s.rest = []) : ∃ d ∈ s.run.notes, d.line = none := by
  refine ⟨.about (.expected "\x7d" none) none, (run_notes s).subset ?_, rfl⟩
  rw [step_of_nil hrest, close_notes, hrest]
  exact List.mem_append_right _ List.mem_cons_self

def followedBy (s : Nesting) : Nesting := { s with rest := s.rest ++ more }

def Round.followedBy : Round → Round
  | .more s => .more (s.followedBy more)
  | .done outcome => .done (outcome.followedBy more)

/-- A round that leaves a token to go on with, or ends without a fault. -/
def Round.Proper : Round → Prop
  | .more s => s.rest ≠ []
  | .done outcome => ∃ b, outcome.value = .ok b

theorem close_followedBy {s : Nesting} (hrest : s.rest ≠ []) (h : s.close.Proper) :
    (s.followedBy more).close = s.close.followedBy more := by
  obtain ⟨top, below, rest, notes⟩ := s
  cases below with
  | nil =>
    simp only [close, followedBy, expect_followedBy more hrest]
    rfl
  | cons f fs =>
    have hbrace : (expect "\x7d" rest).rest ≠ [] := (skipComma_suffix _).ne_nil h
    simp only [close, followedBy, expect_followedBy more hrest, Parsed.followedBy, skipComma_followedBy more hbrace]
    rfl

theorem absorb_followedBy (s : Nesting) {item : Parsed (Except Fault Entry)} (hitem : item.rest ≠ []) :
    (s.followedBy more).absorb (item.followedBy more) = (s.absorb item).followedBy more := by
  obtain ⟨value, rest, notes⟩ := item
  match value with
  | .error fault => rfl
  | .ok (.opening selector) =>
    simp only [absorb, Parsed.followedBy, expect_followedBy more hitem]
    rfl
  | .ok .nothing => rfl
  | .ok (.declaration d) => rfl
  | .ok (.nested b) => rfl

theorem rest_ne_nil_of_absorb {s : Nesting} {item : Parsed (Except Fault Entry)} (h : (s.absorb item).Proper) :
    item.rest ≠ [] := by
  have hsuffix := absorb_suffix s item
  obtain ⟨value, rest, notes⟩ := item
  match value with
  | .error fault =>
    obtain ⟨b, hb⟩ := h
    cases hb
  | .ok (.opening selector) => exact hsuffix.ne_nil h
  | .ok .nothing => exact h
  | .ok (.declaration d) => exact h
  | .ok (.nested b) => exact h

/-- A round that is proper is the same round, whatever follows. -/
theorem step_followedBy {s : Nesting} (hrest : s.rest ≠ []) (h : s.step.Proper) :
    (s.followedBy more).step = s.step.followedBy more := by
  obtain ⟨t, ts, hts⟩ := List.exists_cons_of_ne_nil hrest
  have hts' : (s.followedBy more).rest = t :: (ts ++ more) := by rw [followedBy, hts, List.cons_append]
  by_cases hbrace : t.isMark "\x7d" = true
  · rw [step_of_brace hts hbrace] at h ⊢
    rw [step_of_brace hts' hbrace, close_followedBy more hrest h]
  · rw [step_of_entry hts hbrace] at h ⊢
    have hitem := rest_ne_nil_of_absorb h
    rw [step_of_entry hts' hbrace, ← absorb_followedBy more s hitem, ← Entry.read_followedBy more hitem]
    rfl

/-- **A block whose diagnostics all have a place is read the same whatever follows.** Every round but the last leaves
a token, since otherwise the next would report a missing brace without a place. -/
theorem run_followedBy {s : Nesting} {b : Block} (hrun : s.run.Settled b) :
    (s.followedBy more).run = s.run.followedBy more := by
  have hopen : ∀ s' : Nesting, s'.run = s.run → s'.rest ≠ [] := by
    intro s' hsame hnil
    obtain ⟨d, hd, hline⟩ := exists_of_rest_eq_nil hnil
    exact hrun.placed d (hsame ▸ hd) hline
  fun_induction run s with
  | case1 s outcome h =>
    have hstep := step_followedBy more (hopen s (run_of_done h)) (by rw [h]; exact ⟨b, hrun.ok⟩)
    rw [h] at hstep
    exact run_of_done hstep
  | case2 s s' h ih =>
    have hstep := step_followedBy more (hopen s (run_of_more h)) (by rw [h]; exact hopen s' rfl)
    rw [h] at hstep
    rw [run_of_more hstep, ih hrun hopen]

end Nesting

theorem Block.read_followedBy {selector : String} {tokens : List Token} {b : Block}
    (h : (Block.read selector tokens).Settled b) :
    Block.read selector (tokens ++ more) = (Block.read selector tokens).followedBy more := by
  have htokens : tokens ≠ [] := by
    rintro rfl
    obtain ⟨d, hd, hline⟩ := Nesting.exists_of_rest_eq_nil (s := ⟨⟨selector, #[], #[]⟩, [], [], _⟩) rfl
    exact h.placed d hd hline
  rw [read, expect_followedBy more htokens]
  exact Nesting.run_followedBy more h

end Readers

end NestedStyles
