import NestedStyles.Proofs.Number.ReadBack

/-!
# Normalizing a number once is enough

A number is normalized by reading it as a double and writing this double. The text of a double reads back, so to
normalize it again changes nothing, and nothing is lost when a color reads the normalized number instead of the one in
the source. A number of the source is read if it has at most one point, and else it is no numeral and stays as it is.

- `Double.normalize_normalize`, `Double.read?_normalize`: for every text.
- `Token.exists_number_text`: the characters of a number in a source.
- `Numeral.exists_literal_of_count_le`, `Numeral.read?_of_two_le_count`: those that are decimal literals, and those
  that are not read.
- `Token.normalize_stable`: the numbers of a source.
-/

namespace NestedStyles

namespace Double

theorem normalize_of_read? {s : String} {d : Double} (h : read? s = some d) : normalize s = d.text := by
  rw [normalize, h]

theorem normalize_of_read?_eq_none {s : String} (h : read? s = none) : normalize s = s := by
  rw [normalize, h]

/-- The normalized text is read as the same double. -/
theorem read?_normalize (s : String) : read? (normalize s) = read? s := by
  cases h : read? s with
  | none => rw [normalize_of_read?_eq_none h, h]
  | some d => rw [normalize_of_read? h, read?_text (isProper_of_read? h)]

theorem normalize_normalize (s : String) : normalize (normalize s) = normalize s := by
  have hread := read?_normalize s
  cases h : read? s with
  | none => rw [normalize_of_read?_eq_none h, normalize_of_read?_eq_none h]
  | some d => rw [normalize_of_read? (hread.trans h), normalize_of_read? h]

end Double

/-! ## Numbers of a source -/

namespace Lexeme

theorem exists_number_text (c : Char) (cs : List Char) :
    ∃ (sign : Numeral.Sign) (body : List Char), (number c cs).1.text = sign.text ++ body ∧
      ∀ x ∈ body, isNumberChar x = true := by
  have hbody : ∀ body : List Char, ∀ x ∈ body.takeWhile isNumberChar, isNumberChar x = true := fun body =>
    List.all_eq_true.1 List.all_takeWhile
  by_cases hs : isSign c = true
  · simp only [number, hs, if_true]
    rw [isSign, Bool.or_eq_true, beq_iff_eq, beq_iff_eq] at hs
    rcases hs with rfl | rfl
    · exact ⟨.plus, _, rfl, hbody cs⟩
    · exact ⟨.minus, _, rfl, hbody cs⟩
  · simp only [number, hs]
    exact ⟨.absent, _, rfl, hbody (c :: cs)⟩

theorem first_of_number {c : Char} {cs : List Char} (h : (first c cs).1.kind = .number) : first c cs = number c cs := by
  unfold first at h ⊢
  iterate 4
    split at h
    · cases h
  split at h
  · next hcomment hblank hhex hquote hnumber =>
    rw [if_neg hcomment, if_neg hblank, if_neg hhex, if_neg hquote, if_pos hnumber]
  split at h
  · cases h
  · cases h

end Lexeme

/-- A number of a source is a sign or none, and then digits and points with at least one digit. -/
theorem Token.exists_number_text {source : String} {t : Token} (ht : t ∈ ofSource source) (hkind : t.kind = .number) :
    ∃ (sign : Numeral.Sign) (body : List Char), t.text = String.ofList (sign.text ++ body) ∧
      (∀ c ∈ body, Lexeme.isNumberChar c = true) ∧ ∃ c ∈ body, c.isDigit = true := by
  have hlexed : t.Lexed := ⟨source, List.mem_filter.2 ⟨ht, by simp [isSignificant, hkind]⟩⟩
  obtain ⟨d, hd, hdigit⟩ := hlexed.exists_digit (.inl hkind)
  obtain ⟨c, cs, p, rfl⟩ := Lexeme.exists_first_of_mem_place ht
  obtain ⟨sign, body, htext, hbody⟩ := Lexeme.exists_number_text c cs
  have htext' : ((Lexeme.first c cs).1.token p).text = String.ofList (sign.text ++ body) := by
    rw [Lexeme.first_of_number hkind, Lexeme.token, htext]
  refine ⟨sign, body, htext', hbody, d, ?_, hdigit⟩
  rw [htext', String.toList_ofList, List.mem_append] at hd
  refine hd.resolve_left fun hsign => ?_
  cases sign with
  | absent => cases hsign
  | plus | minus =>
    rw [List.mem_singleton.1 hsign] at hdigit
    exact absurd hdigit (by decide)

namespace Numeral

/-- Digits and points up to the first point. -/
theorem exists_digits_point {cs : List Char} (h : ∀ c ∈ cs, Lexeme.isNumberChar c = true) :
    ∃ ds : List Char, (∀ c ∈ ds, c.isDigit = true) ∧
      (cs = ds ∨ ∃ rest, cs = ds ++ '.' :: rest ∧ ∀ c ∈ rest, Lexeme.isNumberChar c = true) := by
  induction cs with
  | nil => exact ⟨[], by simp, .inl rfl⟩
  | cons c cs ih =>
    have hcs : ∀ x ∈ cs, Lexeme.isNumberChar x = true := fun x hx => h x (List.mem_cons_of_mem c hx)
    have hc := h c List.mem_cons_self
    rw [Lexeme.isNumberChar, Bool.or_eq_true, beq_iff_eq] at hc
    rcases hc with hdigit | rfl
    · obtain ⟨ds, hds, hpoint⟩ := ih hcs
      refine ⟨c :: ds, by simpa [hdigit] using hds, hpoint.imp (congrArg (c :: ·)) ?_⟩
      rintro ⟨rest, heq, hrest⟩
      exact ⟨rest, congrArg (c :: ·) heq, hrest⟩
    · exact ⟨[], by simp, .inr ⟨cs, rfl, hcs⟩⟩

theorem count_point_of_isDigit {ds : List Char} (h : ∀ c ∈ ds, c.isDigit = true) : ds.count '.' = 0 :=
  List.count_eq_zero.2 fun hmem => absurd (h '.' hmem) (by decide)

theorem count_point_sign (sign : Sign) (body : List Char) : (sign.text ++ body).count '.' = body.count '.' := by
  cases sign <;> simp [Sign.text]

section Points

variable {body : List Char} (sign : Sign)

/-- With at most one point, digits and points are a decimal literal. -/
theorem exists_literal_of_count_le (hbody : ∀ c ∈ body, Lexeme.isNumberChar c = true)
    (hdigit : ∃ c ∈ body, c.isDigit = true) (hcount : body.count '.' ≤ 1) :
    ∃ l : Literal, l.text = sign.text ++ body := by
  obtain ⟨d, hd, hdigit⟩ := hdigit
  obtain ⟨whole, hwhole, hend | ⟨rest, rfl, hrest⟩⟩ := exists_digits_point hbody
  · subst hend
    exact ⟨⟨sign, body, none, none, hwhole, by simp, by simp, by simp [List.ne_nil_of_mem hd]⟩,
      by simp [Literal.text, Literal.body, Literal.pointText, Literal.powerText]⟩
  obtain ⟨fraction, hfraction, hend | ⟨more, rfl, -⟩⟩ := exists_digits_point hrest
  · subst hend
    have hne : whole ++ rest ≠ [] := by
      refine List.ne_nil_of_mem (a := d) ?_
      rw [List.mem_append, List.mem_cons] at hd
      rcases hd with hd | rfl | hd
      · exact List.mem_append_left _ hd
      · exact absurd hdigit (by decide)
      · exact List.mem_append_right _ hd
    exact ⟨⟨sign, whole, some rest, none, hwhole, hfraction, by simp, hne⟩,
      by simp [Literal.text, Literal.body, Literal.pointText, Literal.powerText]⟩
  · -- a second point would have been counted
    rw [List.count_append, List.count_cons_self, List.count_append, List.count_cons_self] at hcount
    omega

/-- With two points it is no numeral. -/
theorem read?_of_two_le_count (hbody : ∀ c ∈ body, Lexeme.isNumberChar c = true) (hcount : 2 ≤ body.count '.') :
    read? (String.ofList (sign.text ++ body)) = none := by
  have hread : read? (String.ofList (sign.text ++ body)) = unsigned? sign.negative body := by
    have hchars : ∀ c ∈ sign.text ++ body, IsLiteralChar c := fun c hc =>
      (List.mem_append.1 hc).elim isLiteralChar_of_mem_sign fun hmem => isLiteralChar_of_isNumberChar (hbody c hmem)
    cases body with
    | nil => cases hcount
    | cons c cs => exact read?_eq_unsigned? sign (hbody c List.mem_cons_self) hchars
  obtain ⟨whole, hwhole, hend | ⟨rest, rfl, hrest⟩⟩ := exists_digits_point hbody
  · rw [hend, count_point_of_isDigit hwhole] at hcount
    cases hcount
  obtain ⟨fraction, hfraction, hend | ⟨more, rfl, -⟩⟩ := exists_digits_point hrest
  · rw [hend, List.count_append, List.count_cons_self, count_point_of_isDigit hwhole, count_point_of_isDigit hfraction]
      at hcount
    omega
  · rw [hread, unsigned?_two_points sign.negative hwhole hfraction]

end Points

end Numeral

/-! ## Normalized numbers -/

theorem Double.ofDecimal_ne_nan (negative : Bool) (digits : Nat) (exponent : Int) :
    ofDecimal negative digits exponent ≠ nan := by
  rw [ofDecimal_eq_round]
  intro h
  rcases round_cases negative _ _ with ⟨-, hround⟩ | hround
  · cases hround.symm.trans h
  · cases hround.symm.trans h

/-- **Normalizing is stable.** To normalize a number of a source a second time changes nothing. If it has at most one
point it is read as a double, which for a number too large is an infinite one with its sign, and its normalized text
is read as the same double. If it has more points it stays as it is. -/
theorem Token.normalize_stable {source : String} {t : Token} (ht : t ∈ ofSource source) (hkind : t.kind = .number) :
    Double.normalize (Double.normalize t.text) = Double.normalize t.text ∧
      (t.text.toList.count '.' ≤ 1 → ∃ d : Double, Double.read? t.text = some d ∧ d ≠ .nan ∧
        Double.read? (Double.normalize t.text) = some d ∧
        ∀ negative, d = .infinite negative →
          Double.normalize t.text = if negative then "-Infinity" else "Infinity") ∧
      (2 ≤ t.text.toList.count '.' → Double.normalize t.text = t.text) := by
  obtain ⟨sign, body, htext, hbody, hdigit⟩ := exists_number_text ht hkind
  have hcount : t.text.toList.count '.' = body.count '.' := by
    rw [htext, String.toList_ofList, Numeral.count_point_sign]
  refine ⟨Double.normalize_normalize t.text, fun hone => ?_, fun htwo => ?_⟩
  · obtain ⟨l, hl⟩ := Numeral.exists_literal_of_count_le sign hbody hdigit (hcount ▸ hone)
    have hread : Double.read? t.text = some (Double.ofDecimal l.sign.negative (Numeral.value (l.whole ++ l.places))
        (l.power - l.places.length)) := by
      rw [htext, ← hl, Double.read?, l.read?_text, Option.map_some, Numeral.toDouble]
    refine ⟨_, hread, Double.ofDecimal_ne_nan _ _ _, (Double.read?_normalize t.text).trans hread, ?_⟩
    intro negative hinfinite
    rw [Double.normalize_of_read? hread, hinfinite, Double.text]
  · refine Double.normalize_of_read?_eq_none ?_
    rw [htext, Double.read?, Numeral.read?_of_two_le_count sign hbody (hcount ▸ htwo), Option.map_none]

/-- A number with spare digits, and one with two points. -/
theorem Token.normalize_stable_samples :
    (⟨.number, "-007.50", "px", {}⟩ : Token) ∈ ofSource "-007.50px" ∧
      Double.normalize "-007.50" = "-7.5" ∧ Double.normalize (Double.normalize "-007.50") = "-7.5" ∧
      (∃ d, Double.read? "-007.50" = some d ∧ Double.read? "-7.5" = some d) ∧
      (⟨.number, "1.2.3", "", {}⟩ : Token) ∈ ofSource "1.2.3" ∧ Double.normalize "1.2.3" = "1.2.3" := by
  have hspare : (⟨.number, "-007.50", "px", {}⟩ : Token) ∈ ofSource "-007.50px" := by decide +kernel
  have hpoints : (⟨.number, "1.2.3", "", {}⟩ : Token) ∈ ofSource "1.2.3" := by decide +kernel
  obtain ⟨hagain, hread, -⟩ := normalize_stable hspare rfl
  obtain ⟨-, -, hkept⟩ := normalize_stable hpoints rfl
  have htext : Double.normalize "-007.50" = "-7.5" := by decide +kernel
  obtain ⟨d, hd, -, hd', -⟩ := hread (by decide +kernel)
  exact ⟨hspare, htext, hagain.trans htext, ⟨d, hd, htext ▸ hd'⟩, hpoints, hkept (by decide +kernel)⟩

end NestedStyles
