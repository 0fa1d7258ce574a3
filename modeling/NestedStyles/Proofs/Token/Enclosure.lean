import NestedStyles.Proofs.Token.Contents

/-!
# Literals inside values

In a value the text of a literal is put between double quotes as it is, without escapes. Whether it stays between them
when the value is read as a source depends on the text: a bare quote inside ends it early, and a backslash before the
last quote takes that quote, so that the literal goes on with what follows.

- `Lexeme.interior_rest_of_bare`, `Lexeme.interior_rest_of_closed`, `Lexeme.interior_rest_of_taken`: the three cases.
- `Lexeme.interior_rest_eq_iff`: when a quoted text ends with its last quote.
- `Token.render_literal_enclosed_iff`: the first lexeme of a literal that is written into a value.
- `Token.render_literal_breaks_out`: literals that do not stay between their quotes.
-/

namespace NestedStyles

namespace Lexeme

variable {q : Char} (hq : q ≠ '\\') {text : List Char}

/-- A text without quotes and backslashes is closed by the first quote behind it. -/
theorem hasBare_of_plain (hplain : ∀ c ∈ text, c ≠ q ∧ c ≠ '\\') (more : List Char) :
    hasBare q (text ++ more) = hasBare q more := by
  induction text with
  | nil => rfl
  | cons c cs ih =>
    obtain ⟨⟨hquote, hbackslash⟩, hcs⟩ := List.forall_mem_cons.1 hplain
    rw [List.cons_append, hasBare_cons hbackslash, beq_false_of_ne hquote, Bool.false_or, ih hcs]

include hq

/-- A bare quote in the text ends it early, and its last quote is left. -/
theorem interior_rest_of_bare (h : hasBare q text = true) (behind : List Char) :
    behind.length < (interior q (text ++ q :: behind)).2.2.length := by
  rw [interior_of_hasBare hq h, List.length_append, List.length_cons]
  omega

/-- A text that is closed by its last quote and not before ends there, whatever follows. -/
theorem interior_rest_of_closed (htext : hasBare q text = false) (hclose : hasBare q (text ++ [q]) = true)
    (behind : List Char) : (interior q (text ++ q :: behind)).2.2 = behind := by
  have hlast : (interior q (text ++ [q])).2.2 = [] := by
    have hlt := interior_rest_length_lt hq htext (List.cons_ne_nil q [])
    exact List.eq_nil_of_length_eq_zero (Nat.lt_one_iff.1 hlt)
  have hsplit : text ++ q :: behind = text ++ [q] ++ behind := by
    rw [List.append_assoc, List.singleton_append]
  rw [hsplit, interior_of_hasBare hq hclose, hlast, List.nil_append]

/-- If a backslash takes the last quote, then the literal takes something of what follows. -/
theorem interior_rest_of_taken (hclose : hasBare q (text ++ [q]) = false) {behind : List Char} (hbehind : behind ≠ []) :
    (interior q (text ++ q :: behind)).2.2.length < behind.length := by
  have hlt := interior_rest_length_lt hq hclose hbehind
  rwa [List.append_assoc, List.singleton_append] at hlt

theorem interior_rest_eq_iff (behind : List Char) :
    (interior q (text ++ q :: behind)).2.2 = behind ↔
      hasBare q text = false ∧ (hasBare q (text ++ [q]) = true ∨ behind = []) := by
  constructor
  · intro hrest
    constructor
    · refine Bool.eq_false_iff.2 fun hbare => ?_
      have hlt := interior_rest_of_bare hq hbare behind
      rw [hrest] at hlt
      omega
    · by_cases hclose : hasBare q (text ++ [q]) = true
      · exact .inl hclose
      · refine .inr (Decidable.byContradiction fun hbehind => ?_)
        have hlt := interior_rest_of_taken hq (Bool.eq_false_iff.2 hclose) hbehind
        rw [hrest] at hlt
        omega
  · rintro ⟨htext, hclose | rfl⟩
    · exact interior_rest_of_closed hq htext hclose behind
    · -- with nothing behind it, a quote that a backslash takes is the end all the same
      cases hclose : hasBare q (text ++ [q]) with
      | true => exact interior_rest_of_closed hq htext hclose []
      | false => exact interior_rest_of_hasBare_eq_false hq hclose

end Lexeme

/-- A literal at the beginning of a source. -/
def Sample.literal (text : String) : Token := { kind := .literal, text }

namespace Token

variable {t : Token}

theorem render_literal_toList (hkind : t.kind = .literal) (behind : String) :
    (t.render ++ behind).toList = '"' :: (t.text.toList ++ '"' :: behind.toList) := by
  simp [render, hkind]

/-- A literal that was written into a value is read up to what the first bare quote leaves. -/
theorem render_literal_first (hkind : t.kind = .literal) (behind : String) :
    ∃ l rest, Lexeme.all (t.render ++ behind).toList = l :: Lexeme.all rest ∧ l.kind = .literal ∧
      l.raw ++ rest = t.render.toList ++ behind.toList ∧
      rest = (Lexeme.interior '"' (t.text.toList ++ '"' :: behind.toList)).2.2 := by
  have hlist := render_literal_toList hkind behind
  have hfirst := Lexeme.first_of_quote (.inl rfl) (t.text.toList ++ '"' :: behind.toList)
  have happend := Lexeme.first_append '"' (t.text.toList ++ '"' :: behind.toList)
  rw [← hlist, hfirst, String.toList_append] at happend
  refine ⟨_, _, ?_, rfl, happend, rfl⟩
  rw [hlist, Lexeme.all, hfirst]

/-- **The reach of a literal in a value.** Read as a source, a literal that was written into a value is a literal again,
whatever follows. It ends early if its text has a bare quote, and it takes something of what follows if a backslash
takes its last quote; otherwise it is the whole written literal and no more. This is so for all texts without quotes
and backslashes. -/
theorem render_literal_enclosed_iff (t : Token) (hkind : t.kind = .literal) :
    (∀ behind : String, ∃ l ls, Lexeme.all (t.render ++ behind).toList = l :: ls ∧
      (ofSource (t.render ++ behind)).head? = some (l.token {}) ∧ l.kind = .literal ∧
      (hasBare '"' t.text.toList = true → l.raw.length < t.render.toList.length) ∧
      (hasBare '"' (t.text.toList ++ ['"']) = false → behind ≠ "" → t.render.toList.length < l.raw.length) ∧
      (l.raw = t.render.toList ↔
        hasBare '"' t.text.toList = false ∧ (hasBare '"' (t.text.toList ++ ['"']) = true ∨ behind = ""))) ∧
    ((∀ c ∈ t.text.toList, c ≠ '"' ∧ c ≠ '\\') →
      hasBare '"' t.text.toList = false ∧ hasBare '"' (t.text.toList ++ ['"']) = true) := by
  have hquote : '"' ≠ '\\' := Lexeme.ne_backslash_of_quote (.inl rfl)
  constructor
  · intro behind
    obtain ⟨l, rest, hall, hliteral, happend, hrest⟩ := render_literal_first hkind behind
    have hlength : l.raw.length + rest.length = t.render.toList.length + behind.toList.length := by
      rw [← List.length_append, happend, List.length_append]
    refine ⟨l, Lexeme.all rest, hall, ?_, hliteral, ?_, ?_, ?_⟩
    · rw [ofSource, hall]
      rfl
    · intro hbare
      have hleft := Lexeme.interior_rest_of_bare hquote hbare behind.toList
      rw [← hrest] at hleft
      omega
    · intro htaken hbehind
      have hne : behind.toList ≠ [] := fun hnil => hbehind (String.toList_eq_nil_iff.1 hnil)
      have htook := Lexeme.interior_rest_of_taken hquote htaken hne
      rw [← hrest] at htook
      omega
    · have hwhole : l.raw = t.render.toList ↔ rest = behind.toList := by
        constructor
        · intro hraw
          rw [hraw] at happend
          exact List.append_cancel_left happend
        · intro hbehind
          rw [hbehind] at happend
          exact List.append_cancel_right happend
      rw [hwhole, hrest, Lexeme.interior_rest_eq_iff hquote, String.toList_eq_nil_iff]
  · intro hplain
    have hlast := Lexeme.hasBare_of_plain hplain ['"']
    have hnone := Lexeme.hasBare_of_plain hplain []
    rw [List.append_nil] at hnone
    exact ⟨hnone, hlast⟩

/-- The literals `a\"b`, which stays between its quotes, `a"b`, which ends early, `a\`, which goes on, and `ab`. -/
theorem render_literal_enclosed_iff_samples :
    (significant "'a\\\\\"b'" = [Sample.literal "a\\\"b"] ∧
      ∃ l ls, Lexeme.all ((Sample.literal "a\\\"b").render ++ "; top: 0").toList = l :: ls ∧
        l.raw = (Sample.literal "a\\\"b").render.toList) ∧
    (∃ l ls, Lexeme.all ((Sample.literal "a\"b").render ++ "; top: 0").toList = l :: ls ∧ l.raw.length < 5) ∧
    (∃ l ls, Lexeme.all ((Sample.literal "a\\").render ++ "; top: 0").toList = l :: ls ∧ 4 < l.raw.length) ∧
    (hasBare '"' "ab".toList = false ∧ hasBare '"' ("ab".toList ++ ['"']) = true) := by
  refine ⟨⟨by decide +kernel, ?_⟩, ?_, ?_, ?_⟩
  · obtain ⟨l, ls, hall, -, -, -, -, hwhole⟩ :=
      (render_literal_enclosed_iff (Sample.literal "a\\\"b") rfl).1 "; top: 0"
    exact ⟨l, ls, hall, hwhole.2 ⟨by decide +kernel, .inl (by decide +kernel)⟩⟩
  · obtain ⟨l, ls, hall, -, -, hearly, -⟩ := (render_literal_enclosed_iff (Sample.literal "a\"b") rfl).1 "; top: 0"
    exact ⟨l, ls, hall, hearly (by decide +kernel)⟩
  · obtain ⟨l, ls, hall, -, -, -, hon, -⟩ := (render_literal_enclosed_iff (Sample.literal "a\\") rfl).1 "; top: 0"
    exact ⟨l, ls, hall, hon (by decide +kernel) (by decide)⟩
  · exact (render_literal_enclosed_iff (Sample.literal "ab") rfl).2 (by simp [Sample.literal])

/-- **A literal can break out of its quotes.** The quote of `a"b` ends it early, and the rest is read outside of it. The
backslash of `a\` takes the last quote, and what follows is read as a part of it. -/
theorem render_literal_breaks_out :
    ((significant "\"a\\\"b\"").map render = ["\"a\"b\""] ∧
      (Lexeme.all "\"a\"b\"".toList).map Lexeme.raw = ["\"a\"".toList, "b".toList, "\"".toList]) ∧
    ((significant "\"a\\\\\"").map render = ["\"a\\\""] ∧
      (Lexeme.all "\"a\\\"; top: 0".toList).map Lexeme.raw = ["\"a\\\"; top: 0".toList]) := by
  decide +kernel

end Token

end NestedStyles
