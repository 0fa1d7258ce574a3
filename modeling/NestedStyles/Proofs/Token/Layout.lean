import NestedStyles.Proofs.Token.Contents

/-!
# Layout between tokens

Blanks and comments up to the end of a line may stand between any two tokens of a source. What is put there may be
taken into a comment or a run of blanks that is there already, but it changes none of the tokens that the grammar sees.

- `Lexeme.Layout`: texts of blanks and of comments that end with a line feed.
- `Lexeme.contents_insert`: layout at a boundary between lexemes.
- `Token.compile_insert`: the same for sources and what they compile to.
-/

namespace NestedStyles

namespace Lexeme

/-! ## Layout -/

/-- Blanks, and comments each of which is ended by a line feed. -/
inductive Layout : List Char → Prop
  | nil : Layout []
  | blank {c : Char} {cs : List Char} (hc : Text.isBlank c = true) (hcs : Layout cs) : Layout (c :: cs)
  | comment {body cs : List Char} (hbody : ∀ c ∈ body, (c != '\n') = true) (hcs : Layout ('\n' :: cs)) :
      Layout ('-' :: '-' :: (body ++ '\n' :: cs))

/-- A comment ends before the next line feed. -/
theorem contents_comment (cs : List Char) : contents ('-' :: '-' :: cs) = contents (cs.dropWhile (· != '\n')) := by
  have hfirst : first '-' ('-' :: cs) = run .comment (· != '\n') ('-' :: '-' :: cs) := if_pos ⟨rfl, rfl⟩
  have hunseen : ¬((first '-' ('-' :: cs)).1.token {}).isSignificant = true := by
    rw [isSignificant_first_iff]
    simp
  rw [contents_skipped hunseen, hfirst]
  rfl

theorem dropWhile_line {body : List Char} (hbody : ∀ c ∈ body, (c != '\n') = true) (cs : List Char) :
    (body ++ '\n' :: cs).dropWhile (· != '\n') = '\n' :: cs := by
  rw [List.dropWhile_append_of_pos hbody, List.dropWhile_cons_of_neg (by decide)]

theorem exists_line {cs : List Char} (h : '\n' ∈ cs) :
    ∃ body rest, cs = body ++ '\n' :: rest ∧ ∀ c ∈ body, (c != '\n') = true := by
  obtain ⟨body, rest, hcs, hbody⟩ := List.eq_append_cons_of_mem h
  exact ⟨body, rest, hcs, fun c hc => bne_iff_ne.2 (ne_of_mem_of_not_mem hc hbody)⟩

theorem line_of_suffix {as bs : List Char} (hsuffix : bs <:+ as) (h : ∀ z ∈ as.getLast?, z = '\n') :
    ∀ z ∈ bs.getLast?, z = '\n' := by
  obtain ⟨front, rfl⟩ := hsuffix
  intro z hz
  rw [Option.mem_def] at hz
  exact h z (by rw [List.getLast?_append, hz, Option.some_or]; rfl)

/-- A comment in a text that ends with a line feed is ended by one. -/
theorem exists_line_of_comment {cs : List Char} (hdash : cs.head? = some '-')
    (hline : ∀ z ∈ ('-' :: cs).getLast?, z = '\n') :
    ∃ body rest, cs = '-' :: (body ++ '\n' :: rest) ∧ ∀ x ∈ body, (x != '\n') = true := by
  obtain ⟨xs, rfl⟩ := List.head?_eq_some_iff.1 hdash
  have hlast := List.getLast?_eq_some_getLast (l := '-' :: '-' :: xs) (by simp)
  have hmem : '\n' ∈ xs := by
    have hmem := List.mem_of_getLast? hlast
    rw [hline _ hlast] at hmem
    simpa using hmem
  obtain ⟨body, rest, rfl, hbody⟩ := exists_line hmem
  exact ⟨body, rest, rfl, hbody⟩

/-- A text without a token that the grammar sees is layout, if it is empty or ends with a line feed. -/
theorem layout_of_contents {cs : List Char} (h : contents cs = []) (hline : ∀ z ∈ cs.getLast?, z = '\n') :
    Layout cs := by
  match cs with
  | [] => exact .nil
  | c :: cs =>
    by_cases hblank : Text.isBlank c = true
    · rw [contents_blank hblank] at h
      exact .blank hblank (layout_of_contents h (line_of_suffix (List.suffix_cons c cs) hline))
    · -- the first lexeme is neither blank nor seen, so a comment begins here
      have hcomment : c = '-' ∧ cs.head? = some '-' := by
        refine Decidable.byContradiction fun hc => ?_
        rw [contents_first rfl {} (isSignificant_first_iff.2 ⟨hc, Bool.eq_false_iff.2 hblank⟩)] at h
        cases h
      obtain ⟨rfl, hdash⟩ := hcomment
      obtain ⟨body, rest, hcs, hbody⟩ := exists_line_of_comment hdash hline
      have hlength : ('\n' :: rest).length < ('-' :: cs).length := by
        simp only [hcs, List.length_cons, List.length_append]
        omega
      have hsuffix : '\n' :: rest <:+ '-' :: cs := ⟨'-' :: '-' :: body, by rw [hcs]; rfl⟩
      rw [hcs, contents_comment, dropWhile_line hbody] at h
      have hrest := layout_of_contents h (line_of_suffix hsuffix hline)
      rw [hcs]
      exact .comment hbody hrest
termination_by cs.length
decreasing_by
  · exact Nat.lt_succ_self _
  · exact hlength

namespace Layout

theorem contents_append {w : List Char} (h : Layout w) (bs : List Char) : contents (w ++ bs) = contents bs := by
  induction h with
  | nil => rfl
  | blank hc _ ih => rw [List.cons_append, contents_blank hc, ih]
  | @comment body cs hbody _ ih =>
    rw [List.cons_append, List.cons_append, List.append_assoc, contents_comment, List.cons_append,
      dropWhile_line hbody, ← List.cons_append, ih]

/-- Layout from its first line feed on. -/
theorem dropLine {w : List Char} (h : Layout w) : Layout (w.dropWhile (· != '\n')) := by
  induction h with
  | nil => exact .nil
  | @blank c cs hc hcs ih =>
    rw [List.dropWhile_cons]
    split
    · exact ih
    · exact .blank hc hcs
  | @comment body cs hbody hcs _ =>
    rw [List.dropWhile_cons_of_pos (by decide), List.dropWhile_cons_of_pos (by decide), dropWhile_line hbody]
    exact hcs

end Layout

/-! ## Layout between lexemes -/

theorem contents_blanks {cs : List Char} (h : ∀ c ∈ cs, Text.isBlank c = true) (more : List Char) :
    contents (cs ++ more) = contents more := by
  induction cs with
  | nil => rfl
  | cons c cs ih =>
    rw [List.cons_append, contents_blank (h c List.mem_cons_self), ih fun x hx => h x (List.mem_cons_of_mem c hx)]

/-- What follows a comment belongs to it up to the next line feed. -/
theorem contents_comment_append {body : List Char} (hbody : ∀ c ∈ body, (c != '\n') = true) (more : List Char) :
    contents ('-' :: '-' :: (body ++ more)) = contents (more.dropWhile (· != '\n')) := by
  rw [contents_comment, List.dropWhile_append_of_pos hbody]

theorem exists_body_of_comment {c : Char} {cs : List Char} (h : c = '-' ∧ cs.head? = some '-') :
    ∃ body, (∀ x ∈ body, (x != '\n') = true) ∧ (first c cs).1.raw = '-' :: '-' :: body ∧
      ∀ x, (first c cs).2.head? = some x → (x != '\n') = false := by
  obtain ⟨xs, rfl⟩ := List.head?_eq_some_iff.1 h.2
  obtain rfl := h.1
  have hfirst : first '-' ('-' :: xs) = run .comment (· != '\n') ('-' :: '-' :: xs) := if_pos h
  refine ⟨xs.takeWhile (· != '\n'), List.all_eq_true.1 List.all_takeWhile, by rw [hfirst]; rfl, fun x hx => ?_⟩
  have hhead := List.head?_dropWhile_not (· != '\n') xs
  have hrest : (first '-' ('-' :: xs)).2 = xs.dropWhile (· != '\n') := by rw [hfirst]; rfl
  rw [hrest] at hx
  rw [hx] at hhead
  simpa using hhead

theorem raw_ne_nil_of_mem {l : Lexeme} {cs : List Char} (h : l ∈ all cs) : l.raw ≠ [] := by
  fun_induction all cs with
  | case1 => cases h
  | case2 c cs ih =>
    rcases List.mem_cons.1 h with rfl | h
    · exact first_raw_ne_nil c cs
    · exact ih h

section Insert

variable {c z : Char} {cs as bs w : List Char} (hw : Layout (z :: w)) (hline : '\n' ∈ z :: w)
include hw hline

/-- Layout behind a comment: its first line is taken into the comment. -/
theorem contents_insert_comment (hstop : ∀ x, (as ++ bs).head? = some x → (x != '\n') = false)
    (ih : contents (as ++ z :: (w ++ bs)) = contents (as ++ bs)) :
    contents ((as ++ z :: (w ++ bs)).dropWhile (· != '\n')) = contents (as ++ bs) := by
  cases as with
  | nil =>
    obtain ⟨body, rest, hsplit, hbody⟩ := exists_line hline
    have hrest := hw.dropLine
    rw [hsplit, dropWhile_line hbody] at hrest
    rw [List.nil_append, ← List.cons_append, hsplit, List.append_assoc, List.cons_append, dropWhile_line hbody,
      ← List.cons_append, hrest.contents_append]
    rfl
  | cons a as =>
    obtain rfl : a = '\n' := by simpa using hstop a rfl
    rw [List.cons_append, List.dropWhile_cons_of_neg (by decide)]
    exact ih

/-- Layout behind the first lexeme, or behind later ones, if what comes behind that lexeme can take it. -/
theorem contents_insert_first (hz : Text.isBlank z = true)
    (hbs : bs ≠ []) (hrest : (first c (cs ++ bs)).2 = as ++ bs)
    (ih : contents (as ++ z :: (w ++ bs)) = contents (as ++ bs)) :
    contents (c :: (cs ++ z :: (w ++ bs))) = contents (c :: (cs ++ bs)) := by
  have hraw := raw_of_append hrest
  have hbehind : ∀ more, c :: (cs ++ more) = (first c (cs ++ bs)).1.raw ++ (as ++ more) := by
    intro more
    rw [← List.cons_append, ← hraw, List.append_assoc]
  by_cases hblank : Text.isBlank c = true
  · have hblanks : ∀ x ∈ (first c (cs ++ bs)).1.raw, Text.isBlank x = true := by
      rw [first_of_isBlank hblank]
      exact List.all_eq_true.1 List.all_takeWhile
    rw [hbehind, hbehind, contents_blanks hblanks, contents_blanks hblanks, ih]
  by_cases hcomment : c = '-' ∧ (cs ++ bs).head? = some '-'
  · obtain ⟨body, hbody, hdashes, hstop⟩ := exists_body_of_comment hcomment
    rw [hrest] at hstop
    rw [hbehind, hbehind, hdashes]
    simp only [List.cons_append]
    rw [contents_comment_append hbody, contents_comment_append hbody, contents_insert_comment hw hline hstop ih,
      Text.dropWhile_eq_self hstop]
  · have hcomment' : ¬(c = '-' ∧ cs.head? = some '-') := fun hc =>
      hcomment ⟨hc.1, head?_append_of_eq_some hc.2 bs⟩
    have hinsert := first_insert hz (Bool.eq_false_iff.2 hblank) (absurd · hcomment') hbs hrest (w ++ bs)
    have hfirst : first c (cs ++ bs) = ((first c (cs ++ bs)).1, as ++ bs) := by rw [← hrest]
    have hseen : ((first c (cs ++ bs)).1.token {}).isSignificant = true :=
      isSignificant_first_iff.2 ⟨hcomment, Bool.eq_false_iff.2 hblank⟩
    rw [contents_first hinsert {} hseen, contents_first hfirst {} hseen, ih]

/-- **Layout between lexemes** changes none of the tokens that the grammar sees. -/
theorem contents_insert (hz : Text.isBlank z = true) (hbs : bs ≠ []) {before after : List Lexeme}
    (hall : all (as ++ bs) = before ++ after) (hbefore : (before.map raw).flatten = as) :
    contents (as ++ z :: (w ++ bs)) = contents (as ++ bs) := by
  induction before generalizing as with
  | nil =>
    obtain rfl : [] = as := hbefore
    exact hw.contents_append bs
  | cons l before ih =>
    rw [List.map_cons, List.flatten_cons] at hbefore
    have hl : l.raw ≠ [] := raw_ne_nil_of_mem (by rw [hall]; exact List.mem_cons_self)
    obtain ⟨c, cs, rfl⟩ : ∃ c cs, as = c :: cs :=
      List.exists_cons_of_ne_nil (hbefore ▸ List.append_ne_nil_of_left_ne_nil hl _)
    rw [List.cons_append, all, List.cons_append, List.cons.injEq] at hall
    have hrest : (first c (cs ++ bs)).2 = (before.map raw).flatten ++ bs := by
      have happ := first_append c (cs ++ bs)
      rw [hall.1, ← List.cons_append, ← hbefore, List.append_assoc] at happ
      exact List.append_cancel_left happ
    exact contents_insert_first hw hline hz hbs hrest (ih (hrest ▸ hall.2) rfl)

end Insert

end Lexeme

namespace Token

/-- The texts `a` and `b` meet between two tokens of the source that they make up: `a` is what its first `i` tokens are
written as, and there is a token before and one behind. -/
def Boundary (a b : String) : Prop :=
  ∃ i, 0 < i ∧ i < (ofSource (a ++ b)).length ∧
    (((Lexeme.all (a ++ b).toList).take i).map Lexeme.raw).flatten = a.toList

theorem significant_eq_nil {w : String} (h : ∀ t ∈ ofSource w, t.kind = .blank ∨ t.kind = .comment) :
    significant w = [] := by
  refine List.filter_eq_nil_iff.2 fun t ht => ?_
  rcases h t ht with hkind | hkind <;> simp [isSignificant, hkind]

/-- Both texts that meet at a boundary are cut into lexemes of the whole, and the second is not empty. -/
theorem Boundary.exists_lexemes {a b : String} (h : Boundary a b) :
    ∃ before after, Lexeme.all (a.toList ++ b.toList) = before ++ after ∧
      (before.map Lexeme.raw).flatten = a.toList ∧ b.toList ≠ [] := by
  obtain ⟨i, -, hi, ha⟩ := h
  rw [ofSource, Lexeme.length_place] at hi
  rw [String.toList_append] at hi ha
  refine ⟨_, _, (List.take_append_drop i _).symm, ha, fun hb => ?_⟩
  have hdrop : (((Lexeme.all (a.toList ++ b.toList)).drop i).map Lexeme.raw).flatten = [] := by
    have hflat := Lexeme.flatten_all (a.toList ++ b.toList)
    rw [← List.take_append_drop i (Lexeme.all _), List.map_append, List.flatten_append, ha] at hflat
    rw [List.append_cancel_left hflat, hb]
  have hmem : (Lexeme.all (a.toList ++ b.toList))[i] ∈ (Lexeme.all (a.toList ++ b.toList)).drop i := by
    rw [List.drop_eq_getElem_cons hi]
    exact List.mem_cons_self
  exact Lexeme.raw_ne_nil_of_mem (List.getElem_mem hi) (List.flatten_eq_nil_iff.1 hdrop _ (List.mem_map_of_mem hmem))

/-- **Layout between tokens is irrelevant.** A text of blanks and comments that begins with a blank and ends with a
line feed can be put between any two tokens of a source: the tokens that the grammar sees keep their kinds, texts and
units, and the source compiles to the same style sheet, rules and messages, or to the same fault. -/
theorem compile_insert {a b w : String} (hboundary : Boundary a b) {z : Char} (hhead : w.toList.head? = some z)
    (hz : Text.isBlank z = true) (hline : w.toList.getLast? = some '\n')
    (hlayout : ∀ t ∈ ofSource w, t.kind = .blank ∨ t.kind = .comment) :
    (significant (a ++ w ++ b)).map content = (significant (a ++ b)).map content ∧
      ∀ options : Options, (compile options (a ++ w ++ b)).map Compilation.gist =
        (compile options (a ++ b)).map Compilation.gist := by
  obtain ⟨before, after, hall, hbefore, hb⟩ := hboundary.exists_lexemes
  obtain ⟨more, hw⟩ := List.head?_eq_some_iff.1 hhead
  have hinside : Lexeme.Layout (z :: more) := by
    rw [← hw]
    refine Lexeme.layout_of_contents ?_ (by simp [hline])
    rw [← map_content_significant, significant_eq_nil hlayout, List.map_nil]
  have hmem : '\n' ∈ z :: more := hw ▸ List.mem_of_getLast? hline
  have hinsert := Lexeme.contents_insert hinside hmem hz hb hall hbefore
  have hcontents : (significant (a ++ w ++ b)).map content = (significant (a ++ b)).map content := by
    rw [map_content_significant, map_content_significant]
    simpa [hw] using hinsert
  exact ⟨hcontents, compile_gist_of_content hcontents⟩

namespace Sample

/-- A source up to the end of a comment. -/
def upper : String := "p = \x7b gap = 1px -- wide"

def lower : String := "\n\x7d"

/-- A blank, a comment that the one before it takes in, and a comment on a line of its own. -/
def notes : String := "\t-- by far\n-- or not\n"

theorem boundary : Boundary upper lower := ⟨13, by decide +kernel⟩

end Sample

theorem compile_insert_notes :
    Boundary Sample.upper Sample.lower ∧ Sample.notes.toList.head? = some '\t' ∧ Text.isBlank '\t' = true ∧
      Sample.notes.toList.getLast? = some '\n' ∧
      (∀ t ∈ ofSource Sample.notes, t.kind = .blank ∨ t.kind = .comment) ∧
      (significant (Sample.upper ++ Sample.notes ++ Sample.lower)).map content =
        [(.identifier, "p", ""), (.punctuation, "=", ""), (.punctuation, "\x7b", ""), (.identifier, "gap", ""),
          (.punctuation, "=", ""), (.number, "1", "px"), (.punctuation, "\x7d", "")] ∧
      (compile {} (Sample.upper ++ Sample.notes ++ Sample.lower)).map Compilation.gist =
        .ok (some "p \x7b\n  gap: 1px;\n\x7d", [⟨"p", [⟨"gap", "1px"⟩]⟩], []) := by
  have hhead : Sample.notes.toList.head? = some '\t' := by decide +kernel
  have hline : Sample.notes.toList.getLast? = some '\n' := by decide +kernel
  have hlayout : ∀ t ∈ ofSource Sample.notes, t.kind = .blank ∨ t.kind = .comment := by decide +kernel
  obtain ⟨hcontents, hgist⟩ := compile_insert Sample.boundary hhead (by decide) hline hlayout
  exact ⟨Sample.boundary, hhead, by decide, hline, hlayout, hcontents.trans (by decide +kernel),
    (hgist {}).trans (by decide +kernel)⟩

end Token

end NestedStyles
