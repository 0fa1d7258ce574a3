import NestedStyles.Proofs.Token.Contents

/-!
# Tokens printed and read back

Each token of a source has a spelling of its own: text and unit as they stand, and a literal between double quotes
with every backslash and every quote escaped. Written with a space between them, the spellings are a source with the
same tokens, so they compile to the same style sheet.

- `Lexeme.interior_escape`: an escaped text is the interior of a literal.
- `Token.Lexed.standsFor_spelling`: the spelling of a token is that token, by itself and before a space.
- `Token.compile_print`: printing tokens and reading them back.
-/

namespace NestedStyles

namespace Lexeme

/-- What is escaped between double quotes is read back. -/
theorem interior_escape (text more : List Char) :
    interior '"' (Token.escape text ++ '"' :: more) = (text, Token.escape text ++ ['"'], more) := by
  induction text with
  | nil =>
    rw [Token.escape, List.flatMap_nil, List.nil_append, interior.eq_def]
    rfl
  | cons c text ih =>
    by_cases hc : c = '\\' ∨ c = '"'
    · have hescape : Token.escape (c :: text) = '\\' :: c :: Token.escape text := by
        simp [Token.escape, List.flatMap_cons, hc]
      rw [hescape, List.cons_append, List.cons_append, interior, if_neg (by decide), if_pos rfl, ih]
      rfl
    · have hescape : Token.escape (c :: text) = c :: Token.escape text := by
        simp [Token.escape, List.flatMap_cons, hc]
      obtain ⟨hslash, hquote⟩ := not_or.1 hc
      rw [hescape, List.cons_append, interior.eq_def]
      simp [hslash, hquote, ih]

/-- A text that is a single token, by itself and before a space. -/
structure StandsFor (cs : List Char) (content : Token.Kind × String × String) : Prop where
  alone : contents cs = [content]
  spaced : ∀ more, contents (cs ++ ' ' :: more) = content :: contents more

theorem standsFor_literal (text : List Char) :
    StandsFor ('"' :: Token.escape text ++ ['"']) (.literal, String.ofList text, "") := by
  have hcontents : ∀ more, contents ('"' :: (Token.escape text ++ '"' :: more)) =
      (.literal, String.ofList text, "") :: contents more := by
    intro more
    have hfirst : first '"' (Token.escape text ++ '"' :: more) =
        (⟨.literal, '"' :: (Token.escape text ++ ['"']), text, []⟩, more) := by
      rw [first_of_quote (.inl rfl), literal, interior_escape]
    exact contents_first hfirst {} rfl
  refine ⟨by simpa [contents_nil] using hcontents [], fun more => ?_⟩
  have hspace : Text.isBlank ' ' = true := by decide
  have hmore := hcontents (' ' :: more)
  rw [contents_blank hspace] at hmore
  simpa using hmore

/-- Literals are the lexemes that begin with a quote. -/
theorem kind_first_ne_literal {c : Char} (hquote : ¬(c = '"' ∨ c = '\'')) (cs : List Char) :
    (first c cs).1.kind ≠ .literal := by
  rw [first]
  split
  · exact Token.Kind.noConfusion
  split
  · exact Token.Kind.noConfusion
  split
  · exact Token.Kind.noConfusion
  split
  · exact Token.Kind.noConfusion
  split
  · exact Token.Kind.noConfusion
  · exact Token.Kind.noConfusion

/-- All other lexemes are spelled as they are written. -/
theorem spelling_first {c : Char} (hquote : ¬(c = '"' ∨ c = '\'')) (cs : List Char) (p : Position) :
    ((first c cs).1.token p).spelling.toList = (first c cs).1.raw := by
  have hkind : ((first c cs).1.token p).kind ≠ .literal := kind_first_ne_literal hquote cs
  have hwritten := first_written c cs p
  generalize (first c cs).1.raw = raw at hwritten
  cases hwritten with
  | plain => simp [Token.spelling]
  | closed hliteral => exact absurd hliteral hkind
  | unclosed hliteral => exact absurd hliteral hkind

/-- A lexeme that is seen by the grammar and is no literal stands for its token. -/
theorem standsFor_raw {c : Char} {cs : List Char} {p : Position} (hquote : ¬(c = '"' ∨ c = '\''))
    (hsignificant : ((first c cs).1.token p).isSignificant = true) :
    StandsFor (first c cs).1.raw ((first c cs).1.token p).content := by
  have hspace : Text.isBlank ' ' = true := by decide
  obtain ⟨ds, hraw, hfirst⟩ := first_raw c cs
  have hvisible : ((first c ds).1.token p).isSignificant = true := by rwa [hfirst]
  obtain ⟨hcomment, hblank⟩ := isSignificant_first_iff.1 hvisible
  have hspaced : ∀ more, first c (ds ++ ' ' :: more) = ((first c cs).1, ' ' :: more) := by
    intro more
    rw [first_blank hspace hblank (absurd · hcomment) (absurd · hquote), hfirst, List.nil_append]
  rw [hraw]
  refine ⟨?_, fun more => ?_⟩
  · rw [contents_first hfirst p hsignificant, contents_nil]
  · rw [List.cons_append, contents_first (hspaced more) p hsignificant, contents_blank hspace]

end Lexeme

namespace Token

/-- **The spelling of a token stands for it.** -/
theorem Lexed.standsFor_spelling {t : Token} (h : t.Lexed) : Lexeme.StandsFor t.spelling.toList t.content := by
  obtain ⟨source, hmem⟩ := h
  obtain ⟨hplace, hsignificant⟩ := List.mem_filter.1 hmem
  obtain ⟨c, cs, p, rfl⟩ := Lexeme.exists_first_of_mem_place hplace
  by_cases hquote : c = '"' ∨ c = '\''
  · have hliteral := Lexeme.standsFor_literal (Lexeme.interior c cs).1
    rw [Lexeme.first_of_quote hquote]
    simpa [spelling, content, Lexeme.token, Lexeme.literal] using hliteral
  · rw [Lexeme.spelling_first hquote]
    exact Lexeme.standsFor_raw hquote hsignificant

/-- The spellings of tokens with spaces between them. -/
def print (tokens : List Token) : String := " ".intercalate (tokens.map spelling)

theorem contents_print {tokens : List Token} (h : ∀ t ∈ tokens, t.Lexed) :
    Lexeme.contents (print tokens).toList = tokens.map content := by
  match tokens with
  | [] => exact Lexeme.contents_nil
  | [t] => simpa [print] using (h t List.mem_cons_self).standsFor_spelling.alone
  | t :: u :: tokens =>
    have hprint : (print (t :: u :: tokens)).toList = t.spelling.toList ++ ' ' :: (print (u :: tokens)).toList := by
      simp [print, String.intercalate_cons_cons]
    rw [hprint, (h t List.mem_cons_self).standsFor_spelling.spaced,
      contents_print fun v hv => h v (List.mem_cons_of_mem t hv)]
    rfl

/-- **Tokens can be printed and read back.** The printed tokens of any source have the same kinds, texts and units, in
the same order, and compile to the same style sheet, rules and messages, or to the same fault. -/
theorem compile_print (source : String) :
    (significant (print (significant source))).map content = (significant source).map content ∧
      ∀ options : Options, (compile options (print (significant source))).map Compilation.gist =
        (compile options source).map Compilation.gist := by
  have hcontents : (significant (print (significant source))).map content = (significant source).map content := by
    rw [map_content_significant]
    exact contents_print fun t ht => ⟨source, ht⟩
  exact ⟨hcontents, compile_gist_of_content hcontents⟩

end Token

end NestedStyles
