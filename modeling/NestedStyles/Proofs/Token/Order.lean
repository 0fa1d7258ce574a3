import NestedStyles.Proofs.Token.Layout

/-!
# Tokens stand in the order of their positions

Every lexeme has a character, so walking over it leads to a later position. The positions of the tokens of a source
increase strictly, and no two tokens share one.

- `Position.Before`: the order of positions, by lines and within a line by columns.
- `Lexeme.place_pairwise`: consecutive lexemes.
- `Token.significant_pairwise`, `Token.eq_of_position`: the tokens of a source that the grammar sees.
-/

namespace NestedStyles

namespace Position

/-- Whether `p` is on an earlier line than `q`, or on the same line to the left of it. -/
def Before (p q : Position) : Prop := p.line < q.line ∨ p.line = q.line ∧ p.column < q.column

variable {p q r : Position}

theorem Before.trans (h : p.Before q) (h' : q.Before r) : p.Before r := by
  unfold Before at *
  omega

theorem Before.ne (h : p.Before q) : p ≠ q := by
  rintro rfl
  unfold Before at h
  omega

theorem before_next (p : Position) (c : Char) : p.Before (p.next c) := by
  by_cases hc : c = '\n'
  · left
    simp [next, hc]
  · right
    simp [next, hc]

theorem before_advance (p : Position) {cs : List Char} (hcs : cs ≠ []) : p.Before (p.advance cs) := by
  induction cs generalizing p with
  | nil => exact absurd rfl hcs
  | cons c cs ih =>
    have hstep := before_next p c
    by_cases hnil : cs = []
    · subst hnil
      exact hstep
    · exact hstep.trans (ih _ hnil)

end Position

namespace Lexeme

/-- No token of consecutive lexemes stands before the first position. -/
theorem eq_or_before_of_mem_place {p : Position} {ls : List Lexeme} (hls : ∀ l ∈ ls, l.raw ≠ []) {t : Token}
    (ht : t ∈ place p ls) : p = t.position ∨ p.Before t.position := by
  induction ls generalizing p with
  | nil => simp [place] at ht
  | cons l ls ih =>
    rw [place, List.mem_cons] at ht
    rcases ht with rfl | ht
    · exact .inl rfl
    · have hfirst := p.before_advance (hls l List.mem_cons_self)
      rcases ih (fun l' hl' => hls l' (List.mem_cons_of_mem l hl')) ht with heq | hlater
      · exact .inr (heq ▸ hfirst)
      · exact .inr (hfirst.trans hlater)

theorem place_pairwise (p : Position) {ls : List Lexeme} (hls : ∀ l ∈ ls, l.raw ≠ []) :
    (place p ls).Pairwise fun t u => t.position.Before u.position := by
  induction ls generalizing p with
  | nil => exact .nil
  | cons l ls ih =>
    have hbehind : ∀ l' ∈ ls, l'.raw ≠ [] := fun l' hl' => hls l' (List.mem_cons_of_mem l hl')
    refine .cons (fun u hu => ?_) (ih _ hbehind)
    have hfirst := p.before_advance (hls l List.mem_cons_self)
    rcases eq_or_before_of_mem_place hbehind hu with heq | hlater
    · exact heq ▸ hfirst
    · exact hfirst.trans hlater

end Lexeme

namespace Token

/-- **The positions of tokens increase** from each to all behind it. -/
theorem significant_pairwise (source : String) :
    (significant source).Pairwise fun t u => t.position.Before u.position :=
  (Lexeme.place_pairwise {} fun _ hl => Lexeme.raw_ne_nil_of_mem hl).filter _

/-- A token is known by its position. -/
theorem eq_of_position {tokens : List Token} (h : tokens.Pairwise fun t u => t.position.Before u.position)
    {t u : Token} (ht : t ∈ tokens) (hu : u ∈ tokens) (hposition : t.position = u.position) : t = u := by
  induction h with
  | nil => cases ht
  | cons hfirst _ ih =>
    rcases List.mem_cons.1 ht with rfl | ht'
    · rcases List.mem_cons.1 hu with rfl | hu'
      · rfl
      · exact absurd hposition (hfirst u hu').ne
    · rcases List.mem_cons.1 hu with rfl | hu'
      · exact absurd hposition.symm (hfirst t ht').ne
      · exact ih ht' hu'

end Token

end NestedStyles
