import NestedStyles.Proofs.Token.Partition
import NestedStyles.Proofs.Token.Lexed
import NestedStyles.Proofs.Relocation
import NestedStyles.Proofs.Preliminaries

/-!
# Tokens of two texts with a line between them

A blank ends every lexeme but a blank run, a comment that the blank does not end, and a literal that is still open. So
the tokens of two texts with a line feed between them are those of the first and then those of the second, only that
the latter begin further down.

- `Lexeme.first_blank`: a lexeme does not reach over a blank behind it.
- `Lexeme.tokens_append`: the tokens of a text with a line feed in it.
- `Token.significant_append`: the same for sources, with the lines of the second counted from its own beginning.
-/

namespace NestedStyles

namespace Lexeme

/-! ## A blank ends a lexeme -/

section Stop

variable {p : Char → Bool} {z : Char}

/-- A run does not reach over a character outside its class. -/
theorem run_stop (hz : p z = false) (kind : Token.Kind) (cs more : List Char) :
    run kind p (cs ++ z :: more) = ((run kind p cs).1, (run kind p cs).2 ++ z :: more) := by
  rw [run, takeWhile_stop hz, dropWhile_stop hz, run]

theorem head?_stop {x : Char} (hx : z ≠ x) (cs more : List Char) :
    (cs ++ z :: more).head? = some x ↔ cs.head? = some x := by
  cases cs <;> simp [hx]

end Stop

/-- What is behind a closed literal does not matter to it. -/
theorem interior_of_hasBare {q : Char} (hq : q ≠ '\\') {cs : List Char} (h : hasBare q cs = true) (more : List Char) :
    interior q (cs ++ more) = ((interior q cs).1, (interior q cs).2.1, (interior q cs).2.2 ++ more) := by
  fun_induction interior q cs with
  | case1 => simp [hasBare] at h
  | case2 cs => rw [List.cons_append, interior.eq_def]; simp
  | case3 => simp [hasBare] at h
  | case4 d ds text raw rest heq _ ih =>
    rw [hasBare_escaped] at h
    rw [heq] at ih
    simp [interior, Ne.symm hq, ih h]
  | case5 c cs hc hb text raw rest heq ih =>
    rw [hasBare_cons hb, beq_false_of_ne hc, Bool.false_or] at h
    rw [heq] at ih
    rw [List.cons_append, interior.eq_def]
    simp [hc, hb, ih h]

/-- A literal without a bare quote is never closed. -/
theorem interior_rest_of_hasBare_eq_false {q : Char} (hq : q ≠ '\\') {cs : List Char} (h : hasBare q cs = false) :
    (interior q cs).2.2 = [] := by
  fun_induction interior q cs with
  | case1 => rfl
  | case2 cs => simp [hasBare_cons hq] at h
  | case3 => rfl
  | case4 d ds text raw rest heq _ ih =>
    rw [heq] at ih
    exact ih (by rwa [hasBare_escaped] at h)
  | case5 c cs hc hb text raw rest heq ih =>
    rw [heq] at ih
    rw [hasBare_cons hb, Bool.or_eq_false_iff] at h
    exact ih h.2

section Blank

variable {z : Char} (hz : Text.isBlank z = true)
include hz

/-- No class of visible characters has a blank. -/
theorem class_of_isBlank {p : Char → Bool} (hp : ∀ {c}, p c = true → Text.isBlank c = false) : p z = false :=
  Bool.eq_false_iff.2 fun h => by simp [hp h] at hz

theorem ne_of_isBlank {x : Char} (hx : Text.isBlank x = false) : z ≠ x := by
  rintro rfl
  simp [hz] at hx

theorem startsDigits_blank (cs more : List Char) : startsDigits (cs ++ z :: more) = startsDigits cs := by
  have hdigit : z.isDigit = false := class_of_isBlank hz Text.isBlank_of_isDigit
  have hpoint : (z == '.') = false := beq_false_of_ne (ne_of_isBlank hz (by decide))
  match cs with
  | [] => simp [startsDigits, hdigit, hpoint]
  | [c] => simp [startsDigits, hdigit]
  | _ :: _ :: _ => rfl

theorem startsNumber_blank (c : Char) (cs more : List Char) : startsNumber c (cs ++ z :: more) = startsNumber c cs := by
  rw [startsNumber, startsNumber, startsDigits_blank hz, ← List.cons_append, startsDigits_blank hz]

theorem number_blank (c : Char) (cs more : List Char) :
    number c (cs ++ z :: more) = ((number c cs).1, (number c cs).2 ++ z :: more) := by
  have hnumber := class_of_isBlank hz isBlank_of_isNumberChar
  have hunit := class_of_isBlank hz isBlank_of_isUnitChar
  by_cases hc : isSign c = true
  · simp only [number, hc, if_true, takeWhile_stop hnumber, dropWhile_stop hnumber, takeWhile_stop hunit,
      dropWhile_stop hunit]
  · simp only [number, hc, if_false, ← List.cons_append, takeWhile_stop hnumber, dropWhile_stop hnumber,
      takeWhile_stop hunit, dropWhile_stop hunit, Bool.false_eq_true]

/-- **A lexeme does not reach over a blank behind it**, unless it is a blank itself. A comment is only ended by a line
feed, and a literal has to be closed. -/
theorem first_blank {c : Char} {cs : List Char} (hc : Text.isBlank c = false)
    (hcomment : c = '-' ∧ cs.head? = some '-' → z = '\n') (hclosed : c = '"' ∨ c = '\'' → hasBare c cs = true)
    (more : List Char) : first c (cs ++ z :: more) = ((first c cs).1, (first c cs).2 ++ z :: more) := by
  have hdash : (cs ++ z :: more).head? = some '-' ↔ cs.head? = some '-' := head?_stop (ne_of_isBlank hz (by decide)) ..
  have hx : (cs ++ z :: more).head? = some 'x' ↔ cs.head? = some 'x' := head?_stop (ne_of_isBlank hz (by decide)) ..
  have hX : (cs ++ z :: more).head? = some 'X' ↔ cs.head? = some 'X' := head?_stop (ne_of_isBlank hz (by decide)) ..
  simp only [first, hdash, hx, hX, hc, startsNumber_blank hz, Bool.false_eq_true, if_false]
  split
  · next h =>
    rw [← List.cons_append]
    exact run_stop (by simp [hcomment h]) ..
  split
  · next h =>
    -- the digits of a hexadecimal token begin behind its second character
    have hhex := class_of_isBlank hz isBlank_of_isHexDigit
    obtain ⟨d, ds, rfl⟩ : ∃ d ds, cs = d :: ds := by
      cases cs with
      | nil => simp at h
      | cons d ds => exact ⟨d, ds, rfl⟩
    simp [takeWhile_stop hhex, dropWhile_stop hhex]
  split
  · next h =>
    simp [literal, interior_of_hasBare (ne_backslash_of_quote h) (hclosed h)]
  split
  · exact number_blank hz c cs more
  split
  · rw [← List.cons_append]
    exact run_stop (class_of_isBlank hz isBlank_of_isNameChar) ..
  · rfl

end Blank

/-! ## The tokens of a text -/

/-- The tokens that the grammar sees, of a text that begins at `p`. -/
def tokens (p : Position) (cs : List Char) : List Token := (place p (all cs)).filter Token.isSignificant

theorem tokens_nil (p : Position) : tokens p [] = [] := by
  rw [tokens, all]
  rfl

theorem tokens_cons (p : Position) (c : Char) (cs : List Char) :
    tokens p (c :: cs) = (if ((first c cs).1.token p).isSignificant then [(first c cs).1.token p] else []) ++
      tokens (p.advance (first c cs).1.raw) (first c cs).2 := by
  rw [tokens, all, place, List.filter_cons]
  split <;> rfl

theorem first_of_isBlank {c : Char} (hc : Text.isBlank c = true) (cs : List Char) :
    first c cs = run .blank Text.isBlank (c :: cs) := by
  have hdash : c ≠ '-' := ne_of_isBlank hc (by decide)
  simp [first, hdash, hc]

theorem first_of_quote {c : Char} (hc : c = '"' ∨ c = '\'') (cs : List Char) : first c cs = literal c cs := by
  have hdouble : Text.isBlank '"' = false := by decide
  have hsingle : Text.isBlank '\'' = false := by decide
  rcases hc with rfl | rfl <;> simp [first, hdouble, hsingle]

/-- Blanks at the beginning only move what follows. -/
theorem tokens_dropWhile (p : Position) (cs : List Char) :
    tokens (p.advance (cs.takeWhile Text.isBlank)) (cs.dropWhile Text.isBlank) = tokens p cs := by
  cases cs with
  | nil => rfl
  | cons c cs =>
    by_cases hc : Text.isBlank c = true
    · rw [tokens_cons, first_of_isBlank hc]
      rfl
    · simp [hc, Position.advance]

theorem tokens_blank (p : Position) {c : Char} (hc : Text.isBlank c = true) (cs : List Char) :
    tokens p (c :: cs) = tokens (p.next c) cs := by
  rw [← tokens_dropWhile p, ← tokens_dropWhile (p.next c)]
  simp [hc]

/-- A text that does not end with a literal does not end within one. -/
theorem hasBare_of_getLast? {p : Position} {c : Char} {cs : List Char} (hc : c = '"' ∨ c = '\'')
    (hlast : ∀ t ∈ (tokens p (c :: cs)).getLast?, t.kind ≠ .literal) : hasBare c cs = true := by
  have hfirst := first_of_quote hc cs
  have hne := ne_backslash_of_quote hc
  cases hbare : hasBare c cs with
  | true => rfl
  | false =>
    have hrest : (first c cs).2 = [] := by
      rw [hfirst]
      exact interior_rest_of_hasBare_eq_false hne hbare
    have htokens : tokens p (c :: cs) = [(first c cs).1.token p] := by
      rw [tokens_cons, hrest, tokens_nil, hfirst]
      rfl
    rw [htokens] at hlast
    exact absurd (by rw [hfirst]; rfl) (hlast _ rfl)

/-- **The tokens of two texts with a line feed between them** are those of the two texts, if the first does not end
within a literal. -/
theorem tokens_append (p : Position) (as bs : List Char) (hlast : ∀ t ∈ (tokens p as).getLast?, t.kind ≠ .literal) :
    tokens p (as ++ '\n' :: bs) = tokens p as ++ tokens (p.advance (as ++ ['\n'])) bs := by
  have hline : Text.isBlank '\n' = true := by decide
  match as with
  | [] =>
    rw [List.nil_append, tokens_blank p hline, tokens_nil]
    rfl
  | c :: cs =>
    by_cases hc : Text.isBlank c = true
    · rw [tokens_blank p hc] at hlast
      rw [List.cons_append, tokens_blank p hc, tokens_blank p hc, tokens_append (p.next c) cs bs hlast]
      rfl
    · have hfirst := first_blank hline (Bool.eq_false_iff.2 hc) (fun _ => rfl) (hasBare_of_getLast? · hlast) bs
      have hlast' : ∀ t ∈ (tokens (p.advance (first c cs).1.raw) (first c cs).2).getLast?, t.kind ≠ .literal := by
        intro t ht
        rw [Option.mem_def] at ht
        exact hlast t (by rw [tokens_cons, List.getLast?_append, ht, Option.some_or]; rfl)
      have hposition : (p.advance (first c cs).1.raw).advance ((first c cs).2 ++ ['\n']) =
          p.advance (c :: cs ++ ['\n']) := by
        rw [← Position.advance_append, ← List.append_assoc, first_append]
      have hlength := first_rest_length c cs
      rw [List.cons_append, tokens_cons, hfirst, tokens_cons p c cs,
        tokens_append (p.advance (first c cs).1.raw) (first c cs).2 bs hlast', hposition, List.append_assoc]
termination_by as.length
decreasing_by
  · exact Nat.lt_succ_self _
  · exact Nat.lt_succ_of_le hlength

/-! ## Further down -/

section Down

variable (count : Nat)

theorem advance_down (p : Position) (cs : List Char) :
    ((Relocation.down count).place p).advance cs = (Relocation.down count).place (p.advance cs) := by
  induction cs generalizing p with
  | nil => rfl
  | cons c cs ih =>
    have hnext : ((Relocation.down count).place p).next c = (Relocation.down count).place (p.next c) := by
      simp only [Position.next, Relocation.down]
      split <;> simp [Nat.add_right_comm]
    rw [Position.advance_cons, hnext, ih, Position.advance_cons]

theorem place_down (p : Position) (ls : List Lexeme) :
    place ((Relocation.down count).place p) ls = (place p ls).map (Relocation.down count).token := by
  induction ls generalizing p with
  | nil => rfl
  | cons l ls ih =>
    rw [place, place, advance_down, ih]
    rfl

theorem tokens_down (p : Position) (cs : List Char) :
    tokens ((Relocation.down count).place p) cs = (tokens p cs).map (Relocation.down count).token := by
  rw [tokens, tokens, place_down, List.filter_map]
  rfl

end Down

end Lexeme

/-- **The tokens of two sources with a line feed between them**: those of the first, and those of the second as many
lines further down as the first has line feeds, and one more. -/
theorem Token.significant_append (a b : String) (hlast : ∀ t ∈ (Token.significant a).getLast?, t.kind ≠ .literal) :
    Token.significant (a ++ "\n" ++ b) =
      Token.significant a ++ (Token.significant b).map (Relocation.down (1 + a.toList.count '\n')).token := by
  have htext : (a ++ "\n" ++ b).toList = a.toList ++ '\n' :: b.toList := by simp
  have hbehind : Position.advance {} (a.toList ++ ['\n']) = (Relocation.down (1 + a.toList.count '\n')).place {} := by
    have h := Position.advance_behind [] (a.toList ++ ['\n'])
    simpa [Position.behind, Relocation.down, Nat.add_comm] using h
  calc Token.significant (a ++ "\n" ++ b)
      = Lexeme.tokens {} (a.toList ++ '\n' :: b.toList) := by rw [← htext]; rfl
    _ = Lexeme.tokens {} a.toList ++ Lexeme.tokens (Position.advance {} (a.toList ++ ['\n'])) b.toList :=
      Lexeme.tokens_append {} a.toList b.toList hlast
    _ = _ := by
      rw [hbehind, Lexeme.tokens_down]
      rfl

end NestedStyles
