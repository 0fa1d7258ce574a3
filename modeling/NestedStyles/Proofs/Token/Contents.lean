import NestedStyles.Proofs.Compilation.Content
import NestedStyles.Proofs.Token.Seam

/-!
# Lexemes stand for themselves

The first lexeme of a text is the same if the text is cut off behind any of its lexemes: no class looks further ahead
than its lexeme reaches, or else what it finds there does not matter. So a lexeme can be taken out of its source, and a
blank can stand in the place of what was behind it.

- `Lexeme.first_of_append`: the first lexeme of a text that is cut off at a boundary.
- `Lexeme.first_insert`: the same with a blank and more text behind the cut.
- `Lexeme.first_raw`: a lexeme by itself.
- `Lexeme.contents`: the contents of the tokens of a text, wherever it stands.
-/

namespace NestedStyles

namespace Lexeme

/-! ## Cutting a text off -/

section Cut

variable {cs bs ds : List Char}

theorem run_of_append {kind : Token.Kind} {p : Char → Bool} {c : Char}
    (h : (run kind p (c :: (cs ++ bs))).2 = ds ++ bs) :
    run kind p (c :: cs) = ((run kind p (c :: (cs ++ bs))).1, ds) := by
  rw [← List.cons_append] at h ⊢
  obtain ⟨htake, hdrop⟩ := dropWhile_of_append h
  rw [run, run, htake, hdrop]

theorem interior_rest_length (q : Char) (cs : List Char) : (interior q cs).2.2.length ≤ cs.length := by
  have happ := congrArg List.length (interior_append q cs)
  rw [List.length_append] at happ
  omega

/-- A literal that is not closed before the cut takes something from behind it. -/
theorem interior_rest_length_lt {q : Char} (hq : q ≠ '\\') (h : hasBare q cs = false) (hbs : bs ≠ []) :
    (interior q (cs ++ bs)).2.2.length < bs.length := by
  obtain ⟨b, bs, rfl⟩ := List.exists_cons_of_ne_nil hbs
  fun_induction hasBare q cs with
  | case1 =>
    rw [List.nil_append, interior.eq_def]
    dsimp only
    split
    · exact Nat.lt_succ_self _
    split
    · cases bs with
      | nil => exact Nat.zero_lt_one
      | cons d ds => exact Nat.lt_succ_of_le (Nat.le_succ_of_le (interior_rest_length q ds))
    · exact Nat.lt_succ_of_le (interior_rest_length q bs)
  | case2 =>
    rw [List.cons_append, List.nil_append, interior, if_neg (Ne.symm hq), if_pos rfl]
    exact Nat.lt_succ_of_le (interior_rest_length q bs)
  | case3 d ds ih =>
    rw [List.cons_append, List.cons_append, interior, if_neg (Ne.symm hq), if_pos rfl]
    exact ih h
  | case4 c cs hc ih =>
    obtain ⟨hcq, hcs⟩ := Bool.or_eq_false_iff.1 h
    rw [List.cons_append, interior.eq_def]
    simp only [beq_eq_false_iff_ne.1 hcq, hc, if_false]
    exact ih hcs

section Literal

variable {q : Char} (hq : q = '"' ∨ q = '\'') (hbs : bs ≠ [])
include hq hbs

theorem hasBare_of_append (h : (literal q (cs ++ bs)).2 = ds ++ bs) : hasBare q cs = true := by
  refine Bool.of_not_eq_false fun hbare => ?_
  have hlt := interior_rest_length_lt (ne_backslash_of_quote hq) hbare hbs
  have hrest : (interior q (cs ++ bs)).2.2 = ds ++ bs := h
  rw [hrest, List.length_append] at hlt
  omega

/-- A literal that ends before the cut is the same literal. -/
theorem literal_of_append (h : (literal q (cs ++ bs)).2 = ds ++ bs) :
    literal q cs = ((literal q (cs ++ bs)).1, ds) := by
  have hinterior := interior_of_hasBare (ne_backslash_of_quote hq) (hasBare_of_append hq hbs h) bs
  have hrest : (interior q (cs ++ bs)).2.2 = ds ++ bs := h
  have hds : (interior q cs).2.2 = ds := by
    rw [hinterior] at hrest
    exact List.append_cancel_right hrest
  simp [literal, hinterior, hds]

end Literal

theorem isNumberChar_of_startsDigits {c : Char} {cs : List Char} (h : startsDigits (c :: cs) = true) :
    isNumberChar c = true := by
  simp only [startsDigits, Bool.or_eq_true, Bool.and_eq_true] at h
  rw [isNumberChar, Bool.or_eq_true]
  exact h.imp_right And.left

theorem length_dropWhile_le {p : Char → Bool} {c : Char} (hc : p c = true) (cs : List Char) :
    ((c :: cs).dropWhile p).length ≤ cs.length := by
  rw [List.dropWhile_cons_of_pos hc]
  exact (List.dropWhile_suffix p).length_le

/-- Digits that end before the cut begin before it. -/
theorem startsDigits_of_append (h : startsDigits (cs ++ bs) = true)
    (hlength : bs.length ≤ ((cs ++ bs).dropWhile isNumberChar).length) : startsDigits cs = true := by
  match cs, bs with
  | [], [] => exact h
  | [], b :: bs =>
    have hle := length_dropWhile_le (isNumberChar_of_startsDigits h) bs
    rw [List.nil_append, List.length_cons] at hlength
    omega
  | [c], [] => exact h
  | [c], b :: bs =>
    by_cases hdigit : c.isDigit = true
    · simp [startsDigits, hdigit]
    · -- a point, and the digit that has to follow it is behind the cut
      have hc : isNumberChar c = true := isNumberChar_of_startsDigits h
      have hb : b.isDigit = true := by
        simp only [startsDigits, List.cons_append, List.nil_append, Bool.or_eq_true, Bool.and_eq_true, hdigit,
          Bool.false_eq_true, false_or] at h
        exact h.2
      have hnumber : isNumberChar b = true := by simp [isNumberChar, hb]
      have hle := length_dropWhile_le hnumber bs
      rw [List.cons_append, List.nil_append, List.dropWhile_cons_of_pos hc, List.length_cons] at hlength
      omega
  | c :: d :: cs, _ => exact h

theorem startsDigits_append (h : startsDigits cs = true) (bs : List Char) : startsDigits (cs ++ bs) = true := by
  match cs with
  | [c] =>
    simp only [startsDigits, List.head?_nil, Option.any_none, Bool.and_false, Bool.or_false] at h
    simp [startsDigits, h]
  | c :: d :: cs => exact h

/-- A number that ends before the cut is the same number. -/
theorem number_of_append {c : Char} (hstarts : startsNumber c (cs ++ bs) = true)
    (h : (number c (cs ++ bs)).2 = ds ++ bs) :
    startsNumber c cs = true ∧ number c cs = ((number c (cs ++ bs)).1, ds) := by
  rw [startsNumber, Bool.or_eq_true, Bool.and_eq_true] at hstarts
  by_cases hc : isSign c = true
  · simp only [number, hc, if_true] at h
    obtain ⟨es, hmiddle, htake, hdrop, htake', hdrop'⟩ := dropWhile_dropWhile_of_append h
    have hdigits : startsDigits (cs ++ bs) = true := by simpa [startsDigits_of_isSign hc, hc] using hstarts
    have hlength : bs.length ≤ ((cs ++ bs).dropWhile isNumberChar).length := by simp [hmiddle]
    refine ⟨by simp [startsNumber, hc, startsDigits_of_append hdigits hlength], ?_⟩
    simp only [number, hc, if_true, htake, hdrop, hmiddle, htake', hdrop']
  · simp only [number, hc, if_false, Bool.false_eq_true, ← List.cons_append] at h
    obtain ⟨es, hmiddle, htake, hdrop, htake', hdrop'⟩ := dropWhile_dropWhile_of_append h
    have hdigits : startsDigits (c :: cs ++ bs) = true := by simpa [hc] using hstarts
    have hlength : bs.length ≤ ((c :: cs ++ bs).dropWhile isNumberChar).length := by
      rw [hmiddle, List.length_append]
      omega
    refine ⟨by simp [startsNumber, startsDigits_of_append hdigits hlength], ?_⟩
    simp only [number, hc, if_false, Bool.false_eq_true, ← List.cons_append, htake, hdrop, hmiddle, htake', hdrop']

theorem startsNumber_append {c : Char} (h : startsNumber c cs = true) (bs : List Char) :
    startsNumber c (cs ++ bs) = true := by
  simp only [startsNumber, Bool.or_eq_true, Bool.and_eq_true] at h ⊢
  exact h.imp (startsDigits_append · bs) fun h => ⟨h.1, startsDigits_append h.2 bs⟩

theorem head?_append_of_eq_some {x : Char} (h : cs.head? = some x) (bs : List Char) : (cs ++ bs).head? = some x := by
  rw [List.head?_append, h, Option.some_or]

theorem raw_of_append {c : Char} (h : (first c (cs ++ bs)).2 = ds ++ bs) :
    (first c (cs ++ bs)).1.raw ++ ds = c :: cs := by
  have happ := first_append c (cs ++ bs)
  rw [h, ← List.append_assoc, ← List.cons_append] at happ
  exact List.append_cancel_right happ

/-- **The first lexeme of a text that is cut off** behind it, or at a boundary further on, is the same. -/
theorem first_of_append {c : Char} (hbs : bs ≠ []) (h : (first c (cs ++ bs)).2 = ds ++ bs) :
    first c cs = ((first c (cs ++ bs)).1, ds) := by
  have hraw := raw_of_append h
  -- what is seen ahead before the cut is also seen without it
  have hsame : ∀ {x : Char}, cs.head? = some x → (cs ++ bs).head? = some x := (head?_append_of_eq_some · bs)
  simp only [first] at h hraw ⊢
  by_cases hcomment : c = '-' ∧ (cs ++ bs).head? = some '-'
  · simp only [if_pos hcomment] at h hraw ⊢
    obtain ⟨xs, hxs⟩ := List.head?_eq_some_iff.1 hcomment.2
    have hcs : cs.head? = some '-' := by
      simp only [run, hcomment.1, hxs] at hraw
      simp [← (List.cons.inj hraw).2]
    rw [if_pos ⟨hcomment.1, hcs⟩]
    exact run_of_append h
  have hcomment' : ¬(c = '-' ∧ cs.head? = some '-') := fun hc => hcomment ⟨hc.1, hsame hc.2⟩
  simp only [if_neg hcomment, if_neg hcomment'] at h hraw ⊢
  by_cases hblank : Text.isBlank c = true
  · simp only [if_pos hblank] at h ⊢
    exact run_of_append h
  simp only [if_neg hblank] at h hraw ⊢
  by_cases hhex : c = '0' ∧ ((cs ++ bs).head? = some 'x' ∨ (cs ++ bs).head? = some 'X')
  · simp only [if_pos hhex] at h hraw ⊢
    cases cs with
    | nil => simp [hbs] at hraw
    | cons x xs =>
      obtain ⟨htake, hdrop⟩ := dropWhile_of_append h
      rw [if_pos ⟨hhex.1, hhex.2⟩]
      simp [htake, hdrop]
  have hhex' : ¬(c = '0' ∧ (cs.head? = some 'x' ∨ cs.head? = some 'X')) := fun hc =>
    hhex ⟨hc.1, hc.2.imp hsame hsame⟩
  simp only [if_neg hhex, if_neg hhex'] at h ⊢
  by_cases hquote : c = '"' ∨ c = '\''
  · simp only [if_pos hquote] at h ⊢
    exact literal_of_append hquote hbs h
  simp only [if_neg hquote] at h ⊢
  by_cases hnumber : startsNumber c (cs ++ bs) = true
  · simp only [if_pos hnumber] at h ⊢
    obtain ⟨hstarts, heq⟩ := number_of_append hnumber h
    rw [if_pos hstarts, heq]
  have hnumber' : ¬startsNumber c cs = true := fun hc => hnumber (startsNumber_append hc bs)
  simp only [if_neg hnumber, if_neg hnumber'] at h ⊢
  by_cases hname : isNameStart c = true
  · simp only [if_pos hname] at h ⊢
    exact run_of_append h
  simp only [if_neg hname] at h ⊢
  rw [List.append_cancel_right h]

/-- A blank and any text in the place of what was behind the cut. A comment goes on over a blank that is no line feed,
and a run of blanks over any. -/
theorem first_insert {c z : Char} (hz : Text.isBlank z = true) (hc : Text.isBlank c = false)
    (hcomment : c = '-' ∧ cs.head? = some '-' → z = '\n') (hbs : bs ≠ [])
    (h : (first c (cs ++ bs)).2 = ds ++ bs) (more : List Char) :
    first c (cs ++ z :: more) = ((first c (cs ++ bs)).1, ds ++ z :: more) := by
  have hclosed : c = '"' ∨ c = '\'' → hasBare c cs = true := by
    intro hquote
    rw [first_of_quote hquote] at h
    exact hasBare_of_append hquote hbs h
  rw [first_blank hz hc hcomment hclosed more, first_of_append hbs h]

end Cut

/-- **A lexeme by itself** is the same lexeme. -/
theorem first_raw (c : Char) (cs : List Char) :
    ∃ ds, (first c cs).1.raw = c :: ds ∧ first c ds = ((first c cs).1, []) := by
  have happ := first_append c cs
  obtain ⟨d, ds, hraw⟩ := List.exists_cons_of_ne_nil (first_raw_ne_nil c cs)
  rw [hraw, List.cons_append, List.cons.injEq] at happ
  obtain ⟨rfl, hcs⟩ := happ
  refine ⟨ds, hraw, ?_⟩
  by_cases hrest : (first d cs).2 = []
  · obtain rfl : ds = cs := by rw [← hcs, hrest, List.append_nil]
    rw [← hrest]
  · have hfirst : (first d (ds ++ (first d cs).2)).2 = [] ++ (first d cs).2 := by rw [hcs, List.nil_append]
    rw [first_of_append hrest hfirst, hcs]

/-- The first lexeme is seen by the grammar, unless a comment or a blank begins the text. -/
theorem isSignificant_first_iff {c : Char} {cs : List Char} {p : Position} :
    ((first c cs).1.token p).isSignificant = true ↔
      ¬(c = '-' ∧ cs.head? = some '-') ∧ Text.isBlank c = false := by
  by_cases hcomment : c = '-' ∧ cs.head? = some '-'
  · simp [first, hcomment, run, token, Token.isSignificant]
  by_cases hblank : Text.isBlank c = true
  · simp [first_of_isBlank hblank, hblank, run, token, Token.isSignificant]
  refine iff_of_true ?_ ⟨hcomment, Bool.eq_false_iff.2 hblank⟩
  rw [first, if_neg hcomment, if_neg hblank]
  split
  · rfl
  split
  · rfl
  split
  · rfl
  split
  · rfl
  · rfl

/-! ## The contents of a text -/

/-- The contents of the tokens that the grammar sees. -/
def contents (cs : List Char) : List (Token.Kind × String × String) := (tokens {} cs).map Token.content

theorem map_content_place (p q : Position) (ls : List Lexeme) :
    ((place p ls).filter Token.isSignificant).map Token.content =
      ((place q ls).filter Token.isSignificant).map Token.content := by
  induction ls generalizing p q with
  | nil => rfl
  | cons l ls ih =>
    have hsame : (l.token p).isSignificant = (l.token q).isSignificant := rfl
    rw [place, place, List.filter_cons, List.filter_cons, hsame]
    split
    · rw [List.map_cons, List.map_cons, ih (p.advance l.raw) (q.advance l.raw)]
      rfl
    · exact ih _ _

theorem map_content_tokens (p : Position) (cs : List Char) : (tokens p cs).map Token.content = contents cs :=
  map_content_place p {} (all cs)

theorem contents_nil : contents [] = [] := by rw [contents, tokens_nil, List.map_nil]

theorem contents_first {c : Char} {cs rest : List Char} {l : Lexeme} (h : first c cs = (l, rest)) (p : Position)
    (hseen : (l.token p).isSignificant = true) : contents (c :: cs) = (l.token p).content :: contents rest := by
  rw [← map_content_tokens p, tokens_cons, h, if_pos hseen, List.map_append, map_content_tokens]
  rfl

theorem contents_skipped {c : Char} {cs : List Char} (h : ¬((first c cs).1.token {}).isSignificant = true) :
    contents (c :: cs) = contents (first c cs).2 := by
  rw [contents, tokens_cons, if_neg h, List.nil_append, map_content_tokens]

theorem contents_blank {c : Char} (hc : Text.isBlank c = true) (cs : List Char) : contents (c :: cs) = contents cs := by
  rw [contents, tokens_blank {} hc, map_content_tokens]

end Lexeme

theorem Token.map_content_significant (source : String) :
    (Token.significant source).map Token.content = Lexeme.contents source.toList := rfl

end NestedStyles
