import NestedStyles.Proofs.Token.Contents

/-!
# Line ends

Lines may end with a line feed, or with a carriage return and a line feed. A carriage return is a blank, so it ends
every lexeme that the line feed behind it would end; in a comment it becomes part of it. The line feed begins a new
line in any case, so what comes behind has the same position. Only a literal that reaches over a line end tells the two
apart.

- `Text.Returned`: texts that differ by carriage returns before line feeds.
- `Lexeme.first_returned`: the first lexeme of such texts, if the grammar sees it.
- `Lexeme.tokens_returned`: all tokens that the grammar sees, with their positions.
- `Token.compile_withReturns`: the same for sources, and what they compile to.
-/

namespace NestedStyles

namespace Text

/-- The second text is the first with a carriage return before some of the line feeds. -/
inductive Returned : List Char → List Char → Prop
  | nil : Returned [] []
  | same (c : Char) {as bs : List Char} (h : Returned as bs) : Returned (c :: as) (c :: bs)
  | line {as bs : List Char} (h : Returned as bs) : Returned ('\n' :: as) ('\r' :: '\n' :: bs)

/-- The text with a carriage return before every line feed. -/
def withReturns (s : String) : String :=
  String.ofList (s.toList.flatMap fun c => if c = '\n' then ['\r', '\n'] else [c])

theorem returned_withReturns (s : String) : Returned s.toList (withReturns s).toList := by
  rw [withReturns, String.toList_ofList]
  induction s.toList with
  | nil => exact .nil
  | cons c cs ih =>
    rw [List.flatMap_cons]
    split
    · next hline =>
      subst hline
      exact .line ih
    · exact .same c ih

namespace Returned

variable {as bs : List Char} (h : Returned as bs)
include h

theorem head?_eq_some_iff {x : Char} (hline : '\n' ≠ x) (hreturn : '\r' ≠ x) :
    bs.head? = some x ↔ as.head? = some x := by
  cases h with
  | nil => exact Iff.rfl
  | same c => exact Iff.rfl
  | line => simp [hline, hreturn]

/-- A run of a class without line ends is the same. -/
theorem run_eq {p : Char → Bool} (hline : p '\n' = false) (hreturn : p '\r' = false) :
    bs.takeWhile p = as.takeWhile p ∧ Returned (as.dropWhile p) (bs.dropWhile p) := by
  induction h with
  | nil => exact ⟨rfl, .nil⟩
  | same c h ih =>
    obtain ⟨htake, hdrop⟩ := ih
    by_cases hc : p c = true
    · rw [List.takeWhile_cons_of_pos hc, List.takeWhile_cons_of_pos hc, htake, List.dropWhile_cons_of_pos hc,
        List.dropWhile_cons_of_pos hc]
      exact ⟨rfl, hdrop⟩
    · rw [List.takeWhile_cons_of_neg hc, List.takeWhile_cons_of_neg hc, List.dropWhile_cons_of_neg hc,
        List.dropWhile_cons_of_neg hc]
      exact ⟨rfl, .same c h⟩
  | line h =>
    have hline' : ¬p '\n' = true := by simp [hline]
    have hreturn' : ¬p '\r' = true := by simp [hreturn]
    rw [List.takeWhile_cons_of_neg hline', List.takeWhile_cons_of_neg hreturn', List.dropWhile_cons_of_neg hline',
      List.dropWhile_cons_of_neg hreturn']
    exact ⟨rfl, .line h⟩

/-- Up to the end of the line there is at most a carriage return more. -/
theorem line_eq :
    Returned (as.dropWhile (· != '\n')) (bs.dropWhile (· != '\n')) ∧
      (bs.takeWhile (· != '\n') = as.takeWhile (· != '\n') ∨
        bs.takeWhile (· != '\n') = as.takeWhile (· != '\n') ++ ['\r'] ∧
          (as.dropWhile (· != '\n')).head? = some '\n') := by
  induction h with
  | nil => exact ⟨.nil, .inl rfl⟩
  | same c h ih =>
    obtain ⟨hdrop, htake⟩ := ih
    by_cases hc : c = '\n'
    · subst hc
      exact ⟨.same '\n' h, .inl rfl⟩
    have hc : (c != '\n') = true := bne_iff_ne.2 hc
    simp only [List.takeWhile_cons, List.dropWhile_cons, hc, if_true]
    refine ⟨hdrop, ?_⟩
    rcases htake with htake | ⟨htake, hhead⟩
    · exact .inl (congrArg (c :: ·) htake)
    · exact .inr ⟨congrArg (c :: ·) htake, hhead⟩
  | line h => exact ⟨.same '\n' h, .inr ⟨rfl, rfl⟩⟩

omit h in
theorem exists_of_cons {c : Char} (h : Returned (c :: as) bs) (hc : c ≠ '\n') :
    ∃ ds, bs = c :: ds ∧ Returned as ds := by
  cases h with
  | same _ h => exact ⟨_, rfl, h⟩
  | line => exact absurd rfl hc

end Returned

end Text

namespace Lexeme

open Text (Returned)

section Classes

variable {as bs : List Char} (h : Returned as bs)
include h

theorem startsDigits_returned : startsDigits bs = startsDigits as := by
  cases h with
  | nil => rfl
  | line => rfl
  | same c h =>
    cases h with
    | nil => rfl
    | same d => rfl
    | line => rfl

theorem startsNumber_returned (c : Char) : startsNumber c bs = startsNumber c as := by
  rw [startsNumber, startsNumber, startsDigits_returned h, startsDigits_returned (.same c h)]

/-- The digits of a number and the unit behind them. -/
theorem digits_returned :
    bs.takeWhile isNumberChar = as.takeWhile isNumberChar ∧
      (bs.dropWhile isNumberChar).takeWhile isUnitChar = (as.dropWhile isNumberChar).takeWhile isUnitChar ∧
      Returned ((as.dropWhile isNumberChar).dropWhile isUnitChar)
        ((bs.dropWhile isNumberChar).dropWhile isUnitChar) := by
  obtain ⟨hdigits, htail⟩ := h.run_eq (p := isNumberChar) rfl rfl
  obtain ⟨hunit, hrest⟩ := htail.run_eq (p := isUnitChar) rfl rfl
  exact ⟨hdigits, hunit, hrest⟩

theorem number_returned (c : Char) :
    ∃ rest, number c bs = ((number c as).1, rest) ∧ Returned (number c as).2 rest := by
  by_cases hc : isSign c = true
  · obtain ⟨hdigits, hunit, hrest⟩ := digits_returned h
    simp only [number, hc, if_true, hdigits, hunit]
    exact ⟨_, rfl, hrest⟩
  · obtain ⟨hdigits, hunit, hrest⟩ := digits_returned (.same c h)
    simp only [number, hc, if_false, Bool.false_eq_true, hdigits, hunit]
    exact ⟨_, rfl, hrest⟩

/-- A literal whose text has no line feed does not reach over a line end. -/
theorem interior_returned {q : Char} (hq : q ≠ '\n') (htext : '\n' ∉ (interior q as).1) :
    ∃ rest, interior q bs = ((interior q as).1, (interior q as).2.1, rest) ∧ Returned (interior q as).2.2 rest := by
  fun_induction interior q as generalizing bs with
  | case1 =>
    cases h
    exact ⟨[], rfl, .nil⟩
  | case2 cs =>
    obtain ⟨ds, rfl, hds⟩ := h.exists_of_cons hq
    refine ⟨ds, ?_, hds⟩
    rw [interior.eq_def]
    simp
  | case3 =>
    obtain ⟨ds, rfl, hds⟩ := h.exists_of_cons (by decide)
    cases hds
    refine ⟨[], ?_, .nil⟩
    rw [interior.eq_def]
    simp_all
  | case4 d ds text raw rest heq hne ih =>
    obtain ⟨hd, htext⟩ := not_or.1 (mt List.mem_cons.2 htext)
    obtain ⟨es, rfl, hes⟩ := h.exists_of_cons (by decide)
    obtain ⟨fs, rfl, hfs⟩ := hes.exists_of_cons (Ne.symm hd)
    rw [heq] at ih
    obtain ⟨rest', hinterior, hrest⟩ := ih hfs htext
    refine ⟨rest', ?_, hrest⟩
    rw [interior, if_neg hne, if_pos rfl, hinterior]
  | case5 c cs hc hb text raw rest heq ih =>
    obtain ⟨hne, htext⟩ := not_or.1 (mt List.mem_cons.2 htext)
    obtain ⟨es, rfl, hes⟩ := h.exists_of_cons (Ne.symm hne)
    rw [heq] at ih
    obtain ⟨rest', hinterior, hrest⟩ := ih hes htext
    refine ⟨rest', ?_, hrest⟩
    rw [interior.eq_def]
    simp only [hc, hb, if_false, hinterior]

/-- **The first lexeme is the same**, if it is one that the grammar sees and no literal over a line end. -/
theorem first_returned {c : Char} (hcomment : ¬(c = '-' ∧ as.head? = some '-')) (hblank : Text.isBlank c = false)
    (hliteral : c = '"' ∨ c = '\'' → '\n' ∉ (interior c as).1) :
    ∃ rest, first c bs = ((first c as).1, rest) ∧ Returned (first c as).2 rest := by
  have hdash : bs.head? = some '-' ↔ as.head? = some '-' := h.head?_eq_some_iff (by decide) (by decide)
  have hx : bs.head? = some 'x' ↔ as.head? = some 'x' := h.head?_eq_some_iff (by decide) (by decide)
  have hX : bs.head? = some 'X' ↔ as.head? = some 'X' := h.head?_eq_some_iff (by decide) (by decide)
  simp only [first, hdash, hx, hX, if_neg hcomment, hblank, startsNumber_returned h, Bool.false_eq_true, if_false]
  split
  · next hhex =>
    -- the mark behind the zero is no line end
    obtain ⟨x, xs, rfl, hxs⟩ : ∃ x xs, as = x :: xs ∧ x ≠ '\n' := by
      rcases hhex.2 with hmark | hmark <;> obtain ⟨xs, rfl⟩ := List.head?_eq_some_iff.1 hmark
      · exact ⟨'x', xs, rfl, by decide⟩
      · exact ⟨'X', xs, rfl, by decide⟩
    obtain ⟨ys, rfl, hys⟩ := h.exists_of_cons hxs
    obtain ⟨htake, hdrop⟩ := hys.run_eq (p := isHexDigit) rfl rfl
    refine ⟨ys.dropWhile isHexDigit, ?_, hdrop⟩
    simp only [List.tail_cons, htake]
    rfl
  split
  · next hquote =>
    have hq : c ≠ '\n' := by
      rintro rfl
      revert hquote
      decide
    obtain ⟨rest, hinterior, hrest⟩ := interior_returned h hq (hliteral hquote)
    refine ⟨rest, ?_, hrest⟩
    simp only [literal, hinterior]
  split
  · exact number_returned h c
  split
  · obtain ⟨htake, hdrop⟩ := (Returned.same c h).run_eq (p := isNameChar) rfl rfl
    refine ⟨(c :: bs).dropWhile isNameChar, ?_, hdrop⟩
    simp only [run, htake]
  · exact ⟨bs, rfl, h⟩

end Classes

/-! ## Positions -/

/-- Positions from which the text goes on at the same place: they are equal, or on one line that ends there. -/
def Abreast (p q : Position) (cs : List Char) : Prop := p = q ∨ p.line = q.line ∧ cs.head? = some '\n'

theorem Abreast.line_eq {p q : Position} {cs : List Char} (h : Abreast p q cs) : p.line = q.line := by
  rcases h with rfl | h
  · rfl
  · exact h.1

theorem Abreast.eq {p q : Position} {c : Char} {cs : List Char} (h : Abreast p q (c :: cs)) (hc : c ≠ '\n') :
    p = q := by
  rcases h with h | ⟨-, hhead⟩
  · exact h
  · exact absurd (Option.some.inj hhead) hc

/-- One character further on the positions are equal. -/
theorem Abreast.next_eq {p q : Position} {c : Char} {cs : List Char} (h : Abreast p q (c :: cs)) :
    q.next c = p.next c := by
  by_cases hc : c = '\n'
  · have hline : ∀ r : Position, r.next '\n' = ⟨r.line + 1, 1⟩ := fun _ => rfl
    rw [hc, hline, hline, h.line_eq]
  · rw [h.eq hc]

/-- A carriage return at the end of a line counts as a column, but stays on the line. -/
theorem abreast_line {as bs : List Char} (h : Returned as bs) (p : Position) :
    Abreast (p.advance (as.takeWhile (· != '\n'))) (p.advance (bs.takeWhile (· != '\n')))
      (as.dropWhile (· != '\n')) := by
  rcases h.line_eq.2 with htake | ⟨htake, hhead⟩
  · exact .inl (by rw [htake])
  · refine .inr ⟨?_, hhead⟩
    rw [htake, Position.advance_append]
    rfl

/-! ## All tokens -/

/-- A comment reaches to the end of its line. -/
theorem tokens_comment {c : Char} {cs : List Char} (h : c = '-' ∧ cs.head? = some '-') (p : Position) :
    tokens p (c :: cs) =
      tokens (p.advance ((c :: cs).takeWhile (· != '\n'))) ((c :: cs).dropWhile (· != '\n')) := by
  have hfirst : first c cs = run .comment (· != '\n') (c :: cs) := if_pos h
  rw [tokens_cons, hfirst]
  rfl

/-- **Carriage returns before line feeds change no token that the grammar sees**, not even its position, if no literal
reaches over a line end. -/
theorem tokens_returned {as bs : List Char} (h : Returned as bs) {p q : Position} (hplace : Abreast p q as)
    (hliteral : ∀ t ∈ tokens p as, t.kind = .literal → '\n' ∉ t.text.toList) : tokens q bs = tokens p as := by
  have hfeed : Text.isBlank '\n' = true := by decide
  have hreturn : Text.isBlank '\r' = true := by decide
  match as, bs, h with
  | _, _, .nil => rw [tokens_nil, tokens_nil]
  | '\n' :: as, '\r' :: '\n' :: bs, .line h =>
    have hbehind : Abreast p (q.next '\r') ('\n' :: as) := .inr ⟨hplace.line_eq, rfl⟩
    rw [tokens_blank p hfeed] at hliteral ⊢
    rw [tokens_blank q hreturn, tokens_blank _ hfeed, hbehind.next_eq]
    exact tokens_returned h (.inl rfl) hliteral
  | _ :: as, _ :: bs, .same c h =>
    by_cases hblank : Text.isBlank c = true
    · rw [tokens_blank p hblank] at hliteral ⊢
      rw [tokens_blank q hblank, hplace.next_eq]
      exact tokens_returned h (.inl rfl) hliteral
    have hc : c ≠ '\n' := by
      rintro rfl
      exact hblank hfeed
    obtain rfl := hplace.eq hc
    by_cases hcomment : c = '-' ∧ as.head? = some '-'
    · have hcomment' : c = '-' ∧ bs.head? = some '-' :=
        ⟨hcomment.1, (h.head?_eq_some_iff (by decide) (by decide)).2 hcomment.2⟩
      have hlength : ((c :: as).dropWhile (· != '\n')).length ≤ as.length := length_dropWhile_le (by simp [hc]) as
      rw [tokens_comment hcomment] at hliteral ⊢
      rw [tokens_comment hcomment']
      exact tokens_returned (Returned.same c h).line_eq.1 (abreast_line (.same c h) p) hliteral
    · have hvisible := Bool.eq_false_iff.2 hblank
      have hseen : ((first c as).1.token p).isSignificant = true := isSignificant_first_iff.2 ⟨hcomment, hvisible⟩
      rw [tokens_cons, if_pos hseen] at hliteral
      have hquoted : c = '"' ∨ c = '\'' → '\n' ∉ (interior c as).1 := by
        intro hquote
        have hfirst := hliteral _ (List.mem_append_left _ List.mem_cons_self)
        rw [first_of_quote hquote] at hfirst
        simpa [literal, token] using hfirst rfl
      obtain ⟨rest, hfirst, hrest⟩ := first_returned h hcomment hvisible hquoted
      have hlength := first_rest_length c as
      rw [tokens_cons, tokens_cons p c as, hfirst, if_pos hseen]
      congr 1
      exact tokens_returned hrest (.inl rfl) fun t ht => hliteral t (List.mem_append_right _ ht)
termination_by as.length
decreasing_by all_goals simp only [List.length_cons]; omega

end Lexeme

namespace Token

/-- **Line ends do not matter.** If no literal of a source has a line feed in its text, then a carriage return before
every line feed leaves the tokens that the grammar sees as they are, with their lines and columns, and the source
compiles to the same style sheet, rules and diagnostics, or to the same fault. -/
theorem compile_withReturns (source : String)
    (hliteral : ∀ t ∈ ofSource source, t.kind = .literal → '\n' ∉ t.text.toList) :
    significant (Text.withReturns source) = significant source ∧
      ∀ options : Options, compile options (Text.withReturns source) = compile options source := by
  have htokens : significant (Text.withReturns source) = significant source := by
    apply Lexeme.tokens_returned (Text.returned_withReturns source) (.inl rfl)
    intro t ht
    exact hliteral t (List.mem_filter.1 ht).1
  refine ⟨htokens, fun options => ?_⟩
  rw [compile, compile, htokens]

/-- Comments before and behind a line end, a literal, and a parenthesis that is not closed. -/
def Sample.lines : String := "-- narrow\np = \x7b gap = '1px' -- or 2\n  tint = color.mauve(\n"

theorem compile_withReturns_lines :
    (∀ t ∈ ofSource Sample.lines, t.kind = .literal → '\n' ∉ t.text.toList) ∧
      significant (Text.withReturns Sample.lines) = significant Sample.lines ∧
      compile {} (Text.withReturns Sample.lines) =
        .ok ⟨some "p \x7b\n  gap: \"1px\";\n  tint: #000000;\n\x7d",
          [⟨.expected ")" none, none, none⟩, ⟨.unknownColor "mauve", some 3, some 16⟩,
            ⟨.expected "\x7d" none, none, none⟩],
          [⟨"p", [⟨"gap", "\"1px\""⟩, ⟨"tint", "#000000"⟩]⟩], 12, 1⟩ := by
  have hliteral : ∀ t ∈ ofSource Sample.lines, t.kind = .literal → '\n' ∉ t.text.toList := by decide +kernel
  obtain ⟨htokens, hcompile⟩ := compile_withReturns Sample.lines hliteral
  exact ⟨hliteral, htokens, (hcompile {}).trans (by decide +kernel)⟩

end Token

end NestedStyles
