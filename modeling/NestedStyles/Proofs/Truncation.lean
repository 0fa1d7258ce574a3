import NestedStyles.Proofs.Locality
import NestedStyles.Proofs.Value.Joined

/-!
# Reading up to a closing brace, or up to the end

What reads up to a closing brace without touching it takes the end of the input for that brace: the same is read if the
input is cut off there, unless there was something to report. Only a missing token can tell the two apart, since a
report names what was found in its place.

- `Parsed.Spares`: an outcome that leaves what follows and has nothing to report.
- `Value.gather_ahead`, `Value.read_ahead`: values.
- `Declaration.readFunction_ahead`, `Entry.read_ahead`: functions and entries.
- `Nesting.step_ahead`: rounds.
-/

namespace NestedStyles

/-- Nothing is reported, and `more` is left as it is. -/
structure Parsed.Spares {α : Type} (p : Parsed α) (more : List Token) : Prop where
  left : more <:+ p.rest
  quiet : p.notes = []

namespace Parsed.Spares

variable {α β : Type} {more : List Token}

theorem of_after {notes : List Diagnostic} {p : Parsed α} (h : (p.after notes).Spares more) :
    notes = [] ∧ p.Spares more := by
  obtain ⟨hnotes, hquiet⟩ := List.append_eq_nil_iff.1 h.quiet
  exact ⟨hnotes, h.left, hquiet⟩

theorem of_andThen {p : Parsed (Except Fault α)} {next : α → List Token → Parsed (Except Fault β)}
    (h : (p.andThen next).Spares more) (hnext : ∀ a rest, (next a rest).rest <:+ rest) : p.Spares more := by
  refine ⟨h.left.trans (andThen_suffix (List.suffix_refl _) hnext), ?_⟩
  cases hvalue : p.value with
  | error fault => simpa [andThen, hvalue] using h.quiet
  | ok a =>
    rw [andThen_of_ok hvalue] at h
    exact h.of_after.1

/-- What an outcome is continued with spares the same. -/
theorem of_andThen_ok {p : Parsed (Except Fault α)} {next : α → List Token → Parsed (Except Fault β)} {a : α}
    (h : (p.andThen next).Spares more) (ha : p.value = .ok a) : (next a p.rest).Spares more := by
  rw [andThen_of_ok ha] at h
  exact h.of_after.2

end Parsed.Spares

section Readers

variable {more ts : List Token} (hmore : nextIsMark more "\x7d" = true)
include hmore

/-! ## Single tokens -/

theorem exists_brace : ∃ z zs, more = z :: zs ∧ z.isMark "\x7d" = true := by
  cases more with
  | nil => cases hmore
  | cons z zs => exact ⟨z, zs, rfl, hmore⟩

/-- The braces look like nothing but a closing brace. -/
theorem nextIsMark_ahead {mark : String} (hmark : "\x7d" ≠ mark) (ts : List Token) :
    nextIsMark (ts ++ more) mark = nextIsMark ts mark := by
  obtain ⟨z, zs, rfl, hz⟩ := exists_brace hmore
  exact Value.nextIsMark_append (Token.isMark_of_ne hz hmark)

theorem nextIsNamed_ahead (name : String) (ts : List Token) :
    nextIsNamed (ts ++ more) name = nextIsNamed ts name := by
  obtain ⟨z, zs, rfl, hz⟩ := exists_brace hmore
  cases ts with
  | nil =>
    show z.isNamed name = false
    simp [Token.isNamed, (Token.isMark_iff.1 hz).1]
  | cons t ts => rfl

theorem skipComma_ahead (ts : List Token) : skipComma (ts ++ more) = skipComma ts ++ more := by
  rw [skipComma, skipComma, nextIsMark_ahead hmore (by decide)]
  split
  · next hcomma =>
    refine List.tail_append_of_ne_nil ?_
    rintro rfl
    cases hcomma
  · rfl

theorem not_suffix_tail : ¬more <:+ more.tail := by
  obtain ⟨z, zs, rfl, -⟩ := exists_brace hmore
  intro h
  have hlength := h.length_le
  rw [List.tail_cons, List.length_cons] at hlength
  omega

theorem ne_nil_of_tail (h : more <:+ (ts ++ more).tail) : ts ≠ [] := by
  rintro rfl
  exact not_suffix_tail hmore h

/-- A token that is found where it is expected is not the brace. -/
theorem ne_nil_of_expect {wanted : String} (h : (expect wanted (ts ++ more)).Spares more) : ts ≠ [] := by
  obtain ⟨z, zs, rfl, -⟩ := exists_brace hmore
  rintro rfl
  obtain ⟨hleft, hquiet⟩ := h
  rw [List.nil_append, expect] at hleft hquiet
  split at hleft
  · exact not_suffix_tail hmore hleft
  · next hother =>
    rw [if_neg hother] at hquiet
    cases hquiet

/-- What is expected and found leaves the braces behind it. -/
theorem expect_ahead {wanted : String} (h : (expect wanted (ts ++ more)).Spares more) :
    expect wanted (ts ++ more) = (expect wanted ts).followedBy more :=
  expect_followedBy more (ne_nil_of_expect hmore h) wanted

theorem bracketedSelector_ahead (h : (bracketedSelector (ts ++ more)).Spares more) :
    bracketedSelector (ts ++ more) = (bracketedSelector ts).followedBy more := by
  cases ts with
  | nil =>
    -- a brace is no literal, and no closing bracket
    obtain ⟨z, zs, rfl, hz⟩ := exists_brace hmore
    have hliteral : ¬z.kind = .literal := by simp [(Token.isMark_iff.1 hz).1]
    rw [List.nil_append, bracketedSelector, if_neg hliteral] at h
    have hbracket : (expect "]" ([] ++ z :: zs)).Spares (z :: zs) := ⟨h.left, h.quiet⟩
    exact absurd rfl (ne_nil_of_expect hmore hbracket)
  | cons t ts =>
    rw [List.cons_append, bracketedSelector, bracketedSelector] at *
    split at h
    · next hliteral =>
      rw [if_pos hliteral, if_pos hliteral, expect_ahead hmore ⟨h.left, h.quiet⟩]
      rfl
    · next hliteral =>
      rw [if_neg hliteral, if_neg hliteral, ← List.cons_append, expect_followedBy more (List.cons_ne_nil t ts)]
      rfl

/-! ## Values -/

theorem Color.call_ahead (h : (call (ts ++ more)).Spares more) : call (ts ++ more) = (call ts).followedBy more := by
  obtain ⟨hleft, hquiet⟩ := h
  -- what is left at the end was left at every step before
  have hclosed := hleft.trans (expect_suffix ")" _)
  have hopened := hclosed.trans (List.dropWhile_suffix _)
  have hname := hopened.trans (expect_suffix "(" _)
  have hdot := hname.trans (List.tail_suffix _)
  have hts := ne_nil_of_tail hmore (hdot.trans (expect_suffix "." _))
  have hnotes : (expect "." (ts ++ more).tail).notes ++ (expect "(" (expect "." (ts ++ more).tail).rest.tail).notes
      ++ _ ++ _ = [] := hquiet
  simp only [List.append_eq_nil_iff] at hnotes
  obtain ⟨⟨⟨hpoint, hparen⟩, -⟩, -⟩ := hnotes
  rw [List.tail_append_of_ne_nil hts] at hclosed hopened hname hdot hpoint hparen
  rw [expect_ahead hmore ⟨hdot, hpoint⟩] at hclosed hopened hname hparen
  have hrest := ne_nil_of_tail hmore hname
  dsimp only [Parsed.followedBy] at hclosed hopened hparen
  rw [List.tail_append_of_ne_nil hrest] at hclosed hopened hparen
  rw [expect_ahead hmore ⟨hopened, hparen⟩] at hclosed
  refine call_followedBy_of_closed more fun hnil => ?_
  -- without a closing parenthesis the brace would be taken for an argument
  obtain ⟨z, zs, rfl, hz⟩ := exists_brace hmore
  have hother : (!z.isMark ")") = true := by rw [Token.isMark_of_ne hz (by decide), Bool.not_false]
  dsimp only [Parsed.followedBy] at hclosed
  rw [List.dropWhile_append, hnil, List.isEmpty_nil, if_pos rfl, List.dropWhile_cons, if_pos hother] at hclosed
  exact not_suffix_tail hmore (hclosed.trans (List.dropWhile_suffix _))

namespace Value

theorem stops_ahead (t : Token) (ts : List Token) : stops t (ts ++ more) = stops t ts := by
  rw [stops, stops, nextIsMark_ahead hmore (by decide)]

/-- A brace starts no operand, so a sign before it is written as at the end. -/
theorem extend_ahead (text : String) (previous : Option Token) (t : Token) (ts : List Token) :
    extend text previous t (ts ++ more).head? = extend text previous t ts.head? := by
  cases ts with
  | nil =>
    obtain ⟨z, zs, rfl, hz⟩ := exists_brace hmore
    simp [extend, isBinarySign, startsOperand_of_isMark hz (by decide)]
  | cons u us => rfl

/-- A value that leaves the braces ends before them. -/
theorem gather_ahead {depth : Depth} {previous : Option Token} {text : String}
    (h : more <:+ (gather depth previous text (ts ++ more)).rest) :
    gather depth previous text (ts ++ more) = (gather depth previous text ts).followedBy more := by
  induction ts generalizing depth previous text with
  | nil =>
    obtain ⟨z, zs, rfl, -⟩ := exists_brace hmore
    rw [List.nil_append, gather] at h ⊢
    split
    · rfl
    · next hgoes =>
      rw [if_neg hgoes] at h
      exact absurd (h.trans (gather_suffix ..)) (not_suffix_tail hmore)
  | cons t ts ih =>
    rw [List.cons_append, gather, stops_ahead hmore, extend_ahead hmore] at h
    rw [List.cons_append, gather, gather, stops_ahead hmore, extend_ahead hmore]
    split
    · rfl
    · next hgoes =>
      rw [if_neg hgoes] at h
      exact ih h

theorem read_ahead (h : (read (ts ++ more)).Spares more) : read (ts ++ more) = (read ts).followedBy more := by
  cases ts with
  | nil =>
    -- the brace ends the value before it has begun
    obtain ⟨z, zs, rfl, hz⟩ := exists_brace hmore
    have hnamed : ∀ name, z.isNamed name = false := fun name => by simp [Token.isNamed, (Token.isMark_iff.1 hz).1]
    have hstops : stops z zs = true := by simp [stops, hz]
    have htrim : Text.trim "" = "" := by decide
    simp [read, isAbsent, gather, Depth.isZero, hstops, hnamed, Token.isIdentifier_of_isMark hz, Parsed.followedBy,
      Parsed.map, htrim]
  | cons t ts =>
    have habsent : isAbsent t (ts ++ more) = isAbsent t ts := by
      rw [isAbsent, isAbsent, nextIsMark_ahead hmore (by decide), nextIsMark_ahead hmore (by decide)]
    rw [List.cons_append, read, nextIsMark_ahead hmore (by decide), habsent] at h
    rw [List.cons_append, read, read, nextIsMark_ahead hmore (by decide), habsent]
    split at h
    · next hcolor =>
      rw [← List.cons_append] at h ⊢
      rw [if_pos hcolor, if_pos hcolor, Color.call_ahead hmore h]
    next hcolor =>
    rw [if_neg hcolor, if_neg hcolor]
    split at h
    · next hkey =>
      rw [if_pos hkey, if_pos hkey]
      rfl
    · next hkey =>
      rw [← List.cons_append] at h ⊢
      rw [if_neg hkey, if_neg hkey, gather_ahead hmore h.left]
      rfl

end Value

/-! ## Entries -/

namespace Declaration

theorem readAll_ahead {ts : List Token} (h : (readAll (ts ++ more)).Spares more) :
    readAll (ts ++ more) = (readAll ts).followedBy more := by
  match ts with
  | [] =>
    -- the declarations end with a word, so they would go on behind the brace
    obtain ⟨z, zs, rfl, hz⟩ := exists_brace hmore
    have hnamed : ¬z.isNamed "end" = true := by simp [Token.isNamed, (Token.isMark_iff.1 hz).1]
    have hkey : (!z.isIdentifier) = true := by rw [Token.isIdentifier_of_isMark hz, Bool.not_false]
    rw [List.nil_append, readAll_cons, if_neg hnamed, if_pos hkey] at h
    exact absurd (h.left.trans (readAll_suffix zs)) (not_suffix_tail hmore)
  | t :: ts =>
    have hcomma := (skipComma_suffix ts).length_le
    have hvalue := ((skipComma_suffix _).trans ((Value.read_suffix ts.tail).trans (List.tail_suffix ts))).length_le
    rw [List.cons_append, readAll_cons, nextIsMark_ahead hmore (by decide), skipComma_ahead hmore] at h
    rw [List.cons_append, readAll_cons, readAll_cons, nextIsMark_ahead hmore (by decide), skipComma_ahead hmore]
    split at h
    · next hend =>
      rw [if_pos hend, if_pos hend]
      rfl
    next hend =>
    rw [if_neg hend, if_neg hend]
    split at h
    · next hkey => rw [if_pos hkey, if_pos hkey, readAll_ahead h]
    next hkey =>
    rw [if_neg hkey, if_neg hkey]
    split at h
    · next hequals => rw [if_pos hequals, if_pos hequals, readAll_ahead h]
    · next hequals =>
      have hts : ts ≠ [] := by
        rintro rfl
        exact hequals rfl
      rw [if_neg hequals, if_neg hequals, List.tail_append_of_ne_nil hts]
      rw [List.tail_append_of_ne_nil hts] at h
      have hspares := h.of_andThen fun _ rest => (readAll_suffix (skipComma rest)).trans (skipComma_suffix rest)
      rw [Value.read_ahead hmore hspares] at h ⊢
      refine Parsed.andThen_followedBy_of_ok more fun value hok => ?_
      have hbehind : ((readAll (skipComma _)).map _).Spares more := h.of_andThen_ok hok
      dsimp only [Parsed.followedBy] at hbehind
      rw [skipComma_ahead hmore] at hbehind ⊢
      rw [readAll_ahead ⟨hbehind.left, hbehind.quiet⟩]
      rfl
termination_by ts.length
decreasing_by all_goals simp only [List.length_cons]; omega

/-- A function literal that leaves the braces and reports nothing is complete without them. -/
theorem readFunction_ahead (h : (readFunction (ts ++ more)).Spares more) :
    readFunction (ts ++ more) = (readFunction ts).followedBy more := by
  obtain ⟨hnotes, hbody⟩ := h.of_after
  simp only [List.append_eq_nil_iff] at hnotes
  obtain ⟨⟨hhead, hopened⟩, hclosed⟩ := hnotes
  have hall := hbody.of_andThen fun _ rest => expect_suffix "end" rest
  have hclosedLeft := hall.left.trans (readAll_suffix _)
  have hopenedLeft := hclosedLeft.trans (expect_suffix ")" _)
  have hheadLeft := hopenedLeft.trans (expect_suffix "(" _)
  rw [readFunction, readFunction]
  rw [expect_ahead hmore ⟨hheadLeft, hhead⟩] at hopenedLeft hopened hclosedLeft hclosed hall hbody ⊢
  dsimp only [Parsed.followedBy] at hopenedLeft hopened hclosedLeft hclosed hall hbody ⊢
  rw [expect_ahead hmore ⟨hopenedLeft, hopened⟩] at hclosedLeft hclosed hall hbody ⊢
  dsimp only [Parsed.followedBy] at hclosedLeft hclosed hall hbody ⊢
  rw [expect_ahead hmore ⟨hclosedLeft, hclosed⟩] at hall hbody ⊢
  dsimp only [Parsed.followedBy] at hall hbody ⊢
  rw [readAll_ahead hmore hall] at hbody ⊢
  rw [Parsed.andThen_followedBy_of_ok more fun declarations hok => ?_]
  · rfl
  · have hend : ((expect "end" _).map _).Spares more := hbody.of_andThen_ok hok
    rw [expect_ahead hmore ⟨hend.left, hend.quiet⟩]
    rfl

end Declaration

namespace Entry

variable {parent : String} {t : Token}

theorem read_bracket_ahead (hbracket : t.isMark "[" = true) (h : (read parent t (ts ++ more)).Spares more) :
    read parent t (ts ++ more) = (read parent t ts).followedBy more := by
  rw [read, if_pos hbracket] at h
  dsimp only at h
  have hspares : ((expect "=" (bracketedSelector (ts ++ more)).rest).after
      (bracketedSelector (ts ++ more)).notes).Spares more := by
    split at h
    · exact ⟨h.left, h.quiet⟩
    · exact ⟨h.left.trans (skipComma_suffix _), h.quiet⟩
  obtain ⟨hfragment, hequals⟩ := hspares.of_after
  have hbracketed := bracketedSelector_ahead hmore ⟨hequals.left.trans (expect_suffix "=" _), hfragment⟩
  rw [hbracketed] at hequals
  have hopening : "\x7d" ≠ "\x7b" := by decide
  rw [read, read, if_pos hbracket, if_pos hbracket, hbracketed]
  simp only [expect_ahead hmore hequals, Parsed.followedBy, nextIsMark_ahead hmore hopening, skipComma_ahead hmore]
  split <;> rfl

theorem read_key_ahead (hbracket : ¬t.isMark "[" = true) (hkey : ¬(!t.isIdentifier) = true)
    (hequals : ¬(!nextIsMark ts "=") = true) (h : (read parent t (ts ++ more)).Spares more) :
    read parent t (ts ++ more) = (read parent t ts).followedBy more := by
  have hts : ts ≠ [] := by
    rintro rfl
    exact hequals rfl
  have hequals' : ¬(!nextIsMark (ts ++ more) "=") = true := by rwa [nextIsMark_ahead hmore (by decide)]
  rw [read_of_key hbracket hkey hequals', List.tail_append_of_ne_nil hts, nextIsNamed_ahead hmore,
    nextIsMark_ahead hmore (by decide)] at h ⊢
  rw [read_of_key hbracket hkey hequals]
  revert h
  split
  · intro h
    have hspares := h.of_andThen fun _ rest => skipComma_suffix rest
    rw [Declaration.readFunction_ahead hmore hspares]
    refine Parsed.andThen_followedBy_of_ok more fun declarations _ => ?_
    rw [skipComma_ahead hmore]
    rfl
  split
  · exact fun _ => rfl
  · intro h
    have hspares := h.of_andThen fun _ rest => skipComma_suffix rest
    rw [Value.read_ahead hmore hspares]
    refine Parsed.andThen_followedBy_of_ok more fun value _ => ?_
    rw [skipComma_ahead hmore]
    rfl

theorem read_ahead (h : (read parent t (ts ++ more)).Spares more) :
    read parent t (ts ++ more) = (read parent t ts).followedBy more := by
  by_cases hbracket : t.isMark "[" = true
  · exact read_bracket_ahead hmore hbracket h
  by_cases hkey : (!t.isIdentifier) = true
  · rw [read, read, if_neg hbracket, if_neg hbracket, if_pos hkey, if_pos hkey]
    rfl
  by_cases hequals : (!nextIsMark ts "=") = true
  · rw [read, read, nextIsMark_ahead hmore (by decide), if_neg hbracket, if_neg hbracket, if_neg hkey, if_neg hkey,
      if_pos hequals, if_pos hequals, skipComma_ahead hmore]
    rfl
  · exact read_key_ahead hmore hbracket hkey hequals h

end Entry

/-! ## Rounds -/

namespace Nesting

omit hmore in
/-- What an entry has to report comes behind what was reported before. -/
theorem absorb_notes (s : Nesting) (item : Parsed (Except Fault Entry)) :
    s.notes.toList ++ item.notes <+: (s.absorb item).notes := by
  unfold absorb
  split <;> simp [Round.notes]

/-- A round that has nothing to report and leaves `more` as it is. -/
structure Round.Spares (r : Round) (more : List Token) : Prop where
  left : more <:+ r.rest
  quiet : r.notes = []

theorem close_ahead {s : Nesting} (hrest : s.rest ≠ []) : (s.followedBy more).close = s.close.followedBy more := by
  obtain ⟨top, below, rest, notes⟩ := s
  cases below with
  | nil =>
    simp only [close, followedBy, expect_followedBy more hrest]
    rfl
  | cons f fs =>
    simp only [close, followedBy, expect_followedBy more hrest, Parsed.followedBy, skipComma_ahead hmore]
    rfl

theorem absorb_ahead {s : Nesting} {item : Parsed (Except Fault Entry)}
    (h : ((s.followedBy more).absorb (item.followedBy more)).Spares more) :
    (s.followedBy more).absorb (item.followedBy more) = (s.absorb item).followedBy more := by
  obtain ⟨value, rest, notes⟩ := item
  match value with
  | .error fault => rfl
  | .ok (.opening selector) =>
    have hbrace : (expect "\x7b" (rest ++ more)).Spares more := by
      refine ⟨h.left, ?_⟩
      have hquiet : (s.notes ++ notes ++ (expect "\x7b" (rest ++ more)).notes).toList = [] := h.quiet
      simp only [Array.toList_appendList, List.append_eq_nil_iff] at hquiet
      exact hquiet.2
    simp only [absorb, Parsed.followedBy, expect_ahead hmore hbrace]
    rfl
  | .ok .nothing => rfl
  | .ok (.declaration d) => rfl
  | .ok (.nested b) => rfl

/-- **A round takes the end of the input for a closing brace**, as long as it has a token to begin with, nothing to
report, and does not take the brace. -/
theorem step_ahead {s : Nesting} (hrest : s.rest ≠ []) (h : (s.followedBy more).step.Spares more) :
    (s.followedBy more).step = s.step.followedBy more := by
  obtain ⟨t, ts, hts⟩ := List.exists_cons_of_ne_nil hrest
  have hts' : (s.followedBy more).rest = t :: (ts ++ more) := by rw [followedBy, hts, List.cons_append]
  by_cases hbrace : t.isMark "\x7d" = true
  · rw [step_of_brace hts hbrace, step_of_brace hts' hbrace, close_ahead hmore hrest]
  · have hselector : (s.followedBy more).top.selector = s.top.selector := rfl
    rw [step_of_entry hts' hbrace, hselector] at h ⊢
    rw [step_of_entry hts hbrace]
    have hitem : (Entry.read s.top.selector t (ts ++ more)).Spares more := by
      refine ⟨h.left.trans (absorb_suffix ..), ?_⟩
      have hnotes := absorb_notes (s.followedBy more) (Entry.read s.top.selector t (ts ++ more))
      rw [h.quiet, List.prefix_nil, List.append_eq_nil_iff] at hnotes
      exact hnotes.2
    rw [Entry.read_ahead hmore hitem] at h ⊢
    exact absorb_ahead hmore h

end Nesting

end Readers

end NestedStyles
