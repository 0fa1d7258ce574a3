import NestedStyles.Token.Lexeme

/-!
# Tokens that a source can have

A token of a source that is neither blank nor a comment is written into a value with a visible character at both ends.
So what stands between two tokens of a value is exactly what was put there, and nothing is lost when the value is
trimmed.

- `Text.Tight`: text that begins and ends with characters that are not blank.
- `Token.Lexed.render_tight`: the tokens of a source are written tight.
- `Token.Lexed.name_chars`, `Token.Lexed.exists_digit`: what identifiers and numbers are made of.
- `Token.Lexed.isMark_of_text`: only a mark has the text of a mark.
-/

namespace NestedStyles

/-! ## Tight text -/

/-- Text with a character at both ends that is not blank. -/
structure Text.Tight (cs : List Char) : Prop where
  first : ∃ c rest, cs = c :: rest ∧ Text.isBlank c = false
  last : ∃ front c, cs = front ++ [c] ∧ Text.isBlank c = false

namespace Text

theorem Tight.ne_nil {cs : List Char} (h : Tight cs) : cs ≠ [] := by
  obtain ⟨c, rest, rfl, -⟩ := h.first
  simp

theorem Tight.append {as bs : List Char} (ha : Tight as) (hb : Tight bs) (ms : List Char) :
    Tight (as ++ (ms ++ bs)) := by
  obtain ⟨c, rest, rfl, hc⟩ := ha.first
  obtain ⟨front, d, rfl, hd⟩ := hb.last
  exact ⟨⟨c, rest ++ (ms ++ (front ++ [d])), rfl, hc⟩, ⟨c :: rest ++ (ms ++ front), d, by simp, hd⟩⟩

theorem tight_of_forall {cs : List Char} (hne : cs ≠ []) (h : ∀ c ∈ cs, isBlank c = false) : Tight cs := by
  refine ⟨?_, cs.dropLast, cs.getLast hne, (List.dropLast_concat_getLast hne).symm, h _ (List.getLast_mem hne)⟩
  obtain ⟨c, rest, rfl⟩ := List.exists_cons_of_ne_nil hne
  exact ⟨c, rest, rfl, h c List.mem_cons_self⟩

theorem Tight.head?_visible {cs : List Char} (h : Tight cs) : ∀ c, cs.head? = some c → isBlank c = false := by
  obtain ⟨c, rest, rfl, hc⟩ := h.first
  rintro x ⟨⟩
  exact hc

theorem Tight.getLast?_visible {cs : List Char} (h : Tight cs) : ∀ c, cs.getLast? = some c → isBlank c = false := by
  obtain ⟨front, c, rfl, hc⟩ := h.last
  intro x hx
  rw [List.getLast?_concat, Option.some.injEq] at hx
  exact hx ▸ hc

/-- Trimming leaves tight text as it is. -/
theorem Tight.trim_eq {s : String} (h : Tight s.toList) : trim s = s := trim_eq_self h.head?_visible h.getLast?_visible

/-- Trimming takes a space behind tight text away. -/
theorem Tight.trim_space {s : String} (h : Tight s.toList) : trim (s ++ " ") = s := by
  have hfront : (s.toList ++ [' ']).dropWhile isBlank = s.toList ++ [' '] := by
    refine dropWhile_eq_self fun c hc => h.head?_visible c ?_
    obtain ⟨d, rest, hs, -⟩ := h.first
    rw [hs] at hc ⊢
    exact hc
  have hback : (s.toList ++ [' ']).reverse.dropWhile isBlank = s.toList.reverse := by
    rw [List.reverse_append, List.reverse_singleton, List.singleton_append, List.dropWhile_cons_of_pos (by decide)]
    exact dropWhile_eq_self fun c hc => h.getLast?_visible c (by rwa [List.head?_reverse] at hc)
  have hlist : (s ++ " ").toList = s.toList ++ [' '] := String.toList_append
  rw [trim, stripEnds, hlist, hfront, hback, List.reverse_reverse, String.ofList_toList]

/-! ## Characters that are not blank -/

theorem isBlank_of_ascii {c : Char} (hlow : 0x21 ≤ c.toNat) (hhigh : c.toNat < 0x80) : isBlank c = false := by
  simp only [isBlank, Bool.or_eq_false_iff, Bool.and_eq_false_iff, decide_eq_false_iff_not, beq_eq_false_iff_ne]
  omega

theorem isBlank_of_isDigit {c : Char} (h : c.isDigit = true) : isBlank c = false := by
  have h' := Char.isDigit_iff_toNat.1 h
  have h0 : '0'.toNat = 48 := rfl
  have h9 : '9'.toNat = 57 := rfl
  exact isBlank_of_ascii (by omega) (by omega)

theorem isBlank_of_isAlpha {c : Char} (h : c.isAlpha = true) : isBlank c = false := by
  have h' : (65 ≤ c.toNat ∧ c.toNat ≤ 90) ∨ (97 ≤ c.toNat ∧ c.toNat ≤ 122) := by
    rcases Bool.or_eq_true_iff.1 h with hupper | hlower
    · exact .inl (of_decide_eq_true hupper)
    · obtain ⟨hlow, hhigh⟩ := Bool.and_eq_true_iff.1 hlower
      exact .inr ⟨of_decide_eq_true hlow, of_decide_eq_true hhigh⟩
  exact isBlank_of_ascii (by omega) (by omega)

end Text

namespace Lexeme

theorem isBlank_of_isNameChar {c : Char} (h : isNameChar c = true) : Text.isBlank c = false := by
  simp only [isNameChar, Bool.or_eq_true, beq_iff_eq] at h
  rcases h with ((h | h) | rfl) | rfl
  · exact Text.isBlank_of_isAlpha h
  · exact Text.isBlank_of_isDigit h
  · decide
  · decide

theorem isBlank_of_isNumberChar {c : Char} (h : isNumberChar c = true) : Text.isBlank c = false := by
  simp only [isNumberChar, Bool.or_eq_true, beq_iff_eq] at h
  rcases h with h | rfl
  · exact Text.isBlank_of_isDigit h
  · decide

theorem isBlank_of_isUnitChar {c : Char} (h : isUnitChar c = true) : Text.isBlank c = false := by
  simp only [isUnitChar, Bool.or_eq_true, beq_iff_eq] at h
  rcases h with h | rfl
  · exact Text.isBlank_of_isAlpha h
  · decide

theorem isBlank_of_isSign {c : Char} (h : isSign c = true) : Text.isBlank c = false := by
  simp only [isSign, Bool.or_eq_true, beq_iff_eq] at h
  rcases h with rfl | rfl <;> decide

theorem isHexDigit_iff_toNat {c : Char} : isHexDigit c = true ↔
    ((48 ≤ c.toNat ∧ c.toNat ≤ 57) ∨ (97 ≤ c.toNat ∧ c.toNat ≤ 102)) ∨ (65 ≤ c.toNat ∧ c.toNat ≤ 70) := by
  simp only [isHexDigit, Char.isDigit, Bool.or_eq_true, Bool.and_eq_true, decide_eq_true_eq, ge_iff_le, Char.le_def,
    UInt32.le_iff_toNat_le]
  rfl

theorem isBlank_of_isHexDigit {c : Char} (h : isHexDigit c = true) : Text.isBlank c = false := by
  rw [isHexDigit_iff_toNat] at h
  exact Text.isBlank_of_ascii (by omega) (by omega)

theorem isBlank_toLower {c : Char} (h : isHexDigit c = true) : Text.isBlank (Text.toLower c) = false := by
  have hc : c.toNat < 128 := by
    rw [isHexDigit_iff_toNat] at h
    omega
  have hall : ∀ n < 128, isHexDigit (Char.ofNat n) = true → Text.isBlank (Text.toLower (Char.ofNat n)) = false := by
    decide +kernel
  have hc' := hall c.toNat hc
  rw [Char.ofNat_toNat] at hc'
  exact hc' h

theorem isNameChar_of_isNameStart {c : Char} (h : isNameStart c = true) : isNameChar c = true := by
  simp only [isNameStart, Bool.or_eq_true] at h
  simp only [isNameChar, Bool.or_eq_true]
  exact .inl (h.imp_left .inl)

theorem isNameChar_of_isDigit {c : Char} (h : c.isDigit = true) : isNameChar c = true := by
  simp only [isNameChar, h, Bool.or_true, Bool.true_or]

/-! ## The lexemes of a source -/

/-- A run of characters that are not blank is tight. -/
theorem run_tight {kind : Token.Kind} {p : Char → Bool} {c : Char} {cs : List Char} (hc : p c = true)
    (hp : ∀ x, p x = true → Text.isBlank x = false) : Text.Tight (run kind p (c :: cs)).1.raw :=
  Text.tight_of_forall (run_raw_ne_nil hc) fun x hx => hp x (List.all_eq_true.1 List.all_takeWhile x hx)

theorem number_tight {c : Char} {cs : List Char} (h : startsNumber c cs = true) :
    Text.Tight (number c cs).1.raw := by
  refine Text.tight_of_forall (number_raw_ne_nil h) fun x hx => ?_
  have hdigits : ∀ body : List Char, ∀ x ∈ body.takeWhile isNumberChar, Text.isBlank x = false := fun body x hx =>
    isBlank_of_isNumberChar (List.all_eq_true.1 List.all_takeWhile x hx)
  have hunit : ∀ tail : List Char, ∀ x ∈ tail.takeWhile isUnitChar, Text.isBlank x = false := fun tail x hx =>
    isBlank_of_isUnitChar (List.all_eq_true.1 List.all_takeWhile x hx)
  by_cases hs : isSign c = true
  · simp only [number, hs, if_true, List.mem_append, List.mem_singleton] at hx
    rcases hx with (rfl | hx) | hx
    · exact isBlank_of_isSign hs
    · exact hdigits _ x hx
    · exact hunit _ x hx
  · simp only [number, hs, Bool.false_eq_true, if_false, List.mem_append, List.not_mem_nil, false_or] at hx
    rcases hx with hx | hx
    · exact hdigits _ x hx
    · exact hunit _ x hx

/-- The digits of a color are visible, in small letters as well. -/
theorem hashColor_tight {digits : List Char} (h : ∀ c ∈ digits, isHexDigit c = true) :
    Text.Tight (Token.hashColor digits).toList := by
  refine Text.tight_of_forall (by simp [Token.hashColor]) fun x hx => ?_
  simp only [Token.hashColor, String.toList_ofList, List.mem_cons, List.mem_append, List.mem_replicate,
    List.mem_map] at hx
  rcases hx with rfl | ⟨-, rfl⟩ | ⟨c, hc, rfl⟩
  · decide
  · decide
  · exact isBlank_toLower (h c hc)

/-- The first lexeme is written tight, unless it is a blank or a comment. -/
theorem first_render_tight (c : Char) (cs : List Char) (p : Position)
    (h : ((first c cs).1.token p).isSignificant = true) : Text.Tight ((first c cs).1.token p).render.toList := by
  unfold first at h ⊢
  split
  · next hcomment => simp [hcomment, run, token, Token.isSignificant] at h
  next hcomment =>
  split
  · next hblank => simp [hcomment, hblank, run, token, Token.isSignificant] at h
  next hblank =>
  split
  · next hhex =>
    obtain ⟨x, ds, rfl⟩ : ∃ x ds, cs = x :: ds := by
      cases cs with
      | nil => simp at hhex
      | cons x ds => exact ⟨x, ds, rfl⟩
    simp only [token, Token.render, String.toList_ofList]
    exact hashColor_tight fun d hd => List.all_eq_true.1 List.all_takeWhile d (by simpa using hd)
  split
  · have hquote : Text.isBlank '"' = false := by decide
    have hrender : ((literal c cs).1.token p).render.toList = '"' :: ((interior c cs).1 ++ ['"']) := by
      simp [literal, token, Token.render]
    rw [hrender]
    exact ⟨⟨'"', _, rfl, hquote⟩, ⟨'"' :: (interior c cs).1, '"', rfl, hquote⟩⟩
  split
  · next hnumber =>
    have hraw : ((number c cs).1.token p).render.toList = (number c cs).1.raw := by
      simp [number, token, Token.render]
    rw [hraw]
    exact number_tight hnumber
  split
  · next hname =>
    have hc : isNameChar c = true := isNameChar_of_isNameStart hname
    have hrun : Text.Tight (run .identifier isNameChar (c :: cs)).1.raw := run_tight hc fun _ => isBlank_of_isNameChar
    simpa [run, token, Token.render] using hrun
  · exact Text.tight_of_forall (by simp [token, Token.render]) (by simpa [token, Token.render] using hblank)

/-- Where digits begin there is a digit, maybe behind a point. -/
theorem exists_digit_of_startsDigits {body : List Char} (h : startsDigits body = true) :
    ∃ d ∈ body.takeWhile isNumberChar, d.isDigit = true := by
  match body with
  | [] => cases h
  | b :: bs =>
    simp only [startsDigits, Bool.or_eq_true, Bool.and_eq_true, beq_iff_eq] at h
    rcases h with hdigit | ⟨rfl, hpoint⟩
    · exact ⟨b, by simp [isNumberChar, hdigit], hdigit⟩
    · obtain ⟨d, hhead, hd⟩ := (Option.any_eq_true _ _).1 hpoint
      obtain ⟨ds, rfl⟩ := List.head?_eq_some_iff.1 hhead
      exact ⟨d, by simp [isNumberChar, hd], hd⟩

theorem startsDigits_of_isSign {c : Char} (hc : isSign c = true) (cs : List Char) : startsDigits (c :: cs) = false := by
  simp only [isSign, Bool.or_eq_true, beq_iff_eq] at hc
  rcases hc with rfl | rfl <;> rfl

theorem number_exists_digit {c : Char} {cs : List Char} (h : startsNumber c cs = true) :
    ∃ d ∈ (number c cs).1.text, d.isDigit = true := by
  simp only [startsNumber, Bool.or_eq_true, Bool.and_eq_true] at h
  by_cases hs : isSign c = true
  · have hstarts : startsDigits cs = true := by
      rcases h with h | h
      · simp [startsDigits_of_isSign hs] at h
      · exact h.2
    obtain ⟨d, hmem, hd⟩ := exists_digit_of_startsDigits hstarts
    exact ⟨d, by simp [number, hs, hmem], hd⟩
  · obtain ⟨d, hmem, hd⟩ := exists_digit_of_startsDigits (h.resolve_right fun h' => hs h'.1)
    exact ⟨d, by simpa only [number, hs, Bool.false_eq_true, if_false, List.nil_append] using hmem, hd⟩

/-- An identifier begins like one and goes on in name characters. -/
theorem first_name_chars {c : Char} {cs : List Char} (h : (first c cs).1.kind = .identifier) :
    (first c cs).1.text ≠ [] ∧ ∀ x ∈ (first c cs).1.text, isNameChar x = true := by
  unfold first at h ⊢
  iterate 5
    split at h
    · cases h
  split at h
  · next hcomment hblank hhex hquote hnumber hname =>
    rw [if_neg hcomment, if_neg hblank, if_neg hhex, if_neg hquote, if_neg hnumber, if_pos hname]
    have hne : (run .identifier isNameChar (c :: cs)).1.raw ≠ [] := run_raw_ne_nil (isNameChar_of_isNameStart hname)
    exact ⟨hne, fun x hx => List.all_eq_true.1 List.all_takeWhile x hx⟩
  · cases h

theorem first_exists_digit {c : Char} {cs : List Char}
    (h : (first c cs).1.kind = .number ∨ (first c cs).1.kind = .hex) :
    ∃ d ∈ (first c cs).1.text, d.isDigit = true := by
  unfold first at h ⊢
  split at h
  · rcases h with h | h <;> cases h
  next hcomment =>
  split at h
  · rcases h with h | h <;> cases h
  next hblank =>
  rw [if_neg hcomment, if_neg hblank]
  split at h
  · next hhex =>
    rw [if_pos hhex]
    exact ⟨c, List.mem_cons_self, by rw [hhex.1]; decide⟩
  next hhex =>
  split at h
  · rcases h with h | h <;> cases h
  next hquote =>
  split at h
  · next hnumber =>
    rw [if_neg hhex, if_neg hquote, if_pos hnumber]
    exact number_exists_digit hnumber
  split at h
  · rcases h with h | h <;> cases h
  · rcases h with h | h <;> cases h

/-- A token of a source is the first lexeme of what is left of the source. -/
theorem exists_first_of_mem_place {t : Token} {p : Position} {cs : List Char} (h : t ∈ place p (all cs)) :
    ∃ c ds q, t = (first c ds).1.token q := by
  fun_induction all cs generalizing p with
  | case1 => simp [place] at h
  | case2 c cs ih =>
    rw [place, List.mem_cons] at h
    rcases h with rfl | h
    · exact ⟨c, cs, p, rfl⟩
    · exact ih h

end Lexeme

namespace Token

/-- A token that the grammar can see in some source. -/
def Lexed (t : Token) : Prop := ∃ source, t ∈ significant source

section Texts

variable {t : Token} (h : t.Lexed)
include h

theorem Lexed.isSignificant : t.isSignificant = true := by
  obtain ⟨source, hmem⟩ := h
  exact (List.mem_filter.1 hmem).2

theorem Lexed.exists_first : ∃ c cs p, t = (Lexeme.first c cs).1.token p := by
  obtain ⟨source, hmem⟩ := h
  exact Lexeme.exists_first_of_mem_place (List.mem_filter.1 hmem).1

/-- **Tokens of a source are written tight.** -/
theorem Lexed.render_tight : Text.Tight t.render.toList := by
  obtain ⟨c, cs, p, rfl⟩ := h.exists_first
  exact Lexeme.first_render_tight c cs p h.isSignificant

/-- An identifier has a text, of letters, digits, hyphens and underscores. -/
theorem Lexed.name_chars (hkind : t.kind = .identifier) :
    t.text ≠ "" ∧ ∀ c ∈ t.text.toList, Lexeme.isNameChar c = true := by
  obtain ⟨c, cs, p, rfl⟩ := h.exists_first
  obtain ⟨hne, hchars⟩ := Lexeme.first_name_chars hkind
  refine ⟨fun hempty => hne ?_, fun x hx => hchars x (by simpa [Lexeme.token] using hx)⟩
  simpa [Lexeme.token] using congrArg String.toList hempty

theorem Lexed.exists_digit (hkind : t.kind = .number ∨ t.kind = .hex) : ∃ c ∈ t.text.toList, c.isDigit = true := by
  obtain ⟨c, cs, p, rfl⟩ := h.exists_first
  obtain ⟨d, hmem, hd⟩ := Lexeme.first_exists_digit hkind
  exact ⟨d, by simpa [Lexeme.token] using hmem, hd⟩

/-- **Only a mark has the text of a mark**, literals apart: names are made of name characters, and numbers have at
least one of them. -/
theorem Lexed.isMark_of_text {mark : String} (hmark : mark.toList.any Lexeme.isNameChar = false)
    (hkind : t.kind ≠ .literal) (htext : t.text = mark) : t.isMark mark = true := by
  have hvisible := h.isSignificant
  rw [← htext] at hmark
  have hother : ∀ c ∈ t.text.toList, ¬Lexeme.isNameChar c = true := List.any_eq_false.1 hmark
  have hdigit : ∀ c ∈ t.text.toList, ¬c.isDigit = true :=
    fun c hc hd => hother c hc (Lexeme.isNameChar_of_isDigit hd)
  refine isMark_iff.2 ⟨?_, htext⟩
  cases hcase : t.kind with
  | punctuation => rfl
  | literal => exact absurd hcase hkind
  | comment | blank => simp [Token.isSignificant, hcase] at hvisible
  | identifier =>
    obtain ⟨hne, hchars⟩ := h.name_chars hcase
    obtain ⟨c, cs, hfirst⟩ := List.exists_cons_of_ne_nil fun hnil => hne (String.toList_eq_nil_iff.1 hnil)
    have hc : c ∈ t.text.toList := by rw [hfirst]; exact List.mem_cons_self
    exact absurd (hchars c hc) (hother c hc)
  | number =>
    obtain ⟨c, hc, hd⟩ := h.exists_digit (.inl hcase)
    exact absurd hd (hdigit c hc)
  | hex =>
    obtain ⟨c, hc, hd⟩ := h.exists_digit (.inr hcase)
    exact absurd hd (hdigit c hc)

end Texts

end Token

end NestedStyles
