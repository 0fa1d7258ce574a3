import NestedStyles.Token.Lexeme

/-!
# Tokens partition their source

The tokens of a source stand for consecutive, non-empty pieces of it that leave nothing out, and every token knows the
line and the column where its piece begins.

- `Position.advance_behind`: walking over a text keeps count of its line feeds and of the characters behind the last.
- `Lexeme.interior_eq_unescape`: a literal ends at its first bare quote, and its text is the unescaped body.
- `Lexeme.first_written`: the first lexeme is a spelling of its token.
- `Token.ofSource_partition`: the partition.
-/

namespace NestedStyles

/-! ## Counting lines and columns -/

/-- The position behind a text that begins a source: a line for every line feed, and a column for every character
behind the last of them, both counted from one. -/
def Position.behind (before : List Char) : Position :=
  ⟨1 + before.count '\n', 1 + (before.reverse.takeWhile (· != '\n')).length⟩

theorem Position.next_behind (before : List Char) (c : Char) :
    (Position.behind before).next c = Position.behind (before ++ [c]) := by
  by_cases hc : c = '\n'
  · subst hc
    simp [Position.behind, Position.next, Nat.add_assoc]
  · simp [Position.behind, Position.next, hc, List.count_append, Nat.add_comm]

theorem Position.advance_behind (before cs : List Char) :
    (Position.behind before).advance cs = Position.behind (before ++ cs) := by
  induction cs generalizing before with
  | nil => rw [List.append_nil, advance, List.foldl_nil]
  | cons c cs ih => rw [advance_cons, next_behind, ih, List.append_assoc, List.singleton_append]

/-! ## Literals -/

/-- Each backslash dropped and the character behind it kept. A backslash at the end stands for nothing. -/
def unescape : List Char → List Char
  | [] => []
  | c :: cs =>
    if c = '\\' then
      match cs with
      | [] => []
      | d :: ds => d :: unescape ds
    else c :: unescape cs

/-- Whether the quote `q` occurs in a text without a backslash that takes it. -/
def hasBare (q : Char) : List Char → Bool
  | [] => false
  | c :: cs =>
    if c = '\\' then
      match cs with
      | [] => false
      | _ :: ds => hasBare q ds
    else c == q || hasBare q cs

theorem unescape_escaped (d : Char) (ds : List Char) : unescape ('\\' :: d :: ds) = d :: unescape ds := by
  rw [unescape, if_pos rfl]

theorem unescape_cons {c : Char} (hc : c ≠ '\\') (cs : List Char) : unescape (c :: cs) = c :: unescape cs := by
  rw [unescape.eq_def]
  simp [hc]

theorem hasBare_escaped (q d : Char) (ds : List Char) : hasBare q ('\\' :: d :: ds) = hasBare q ds := by
  rw [hasBare, if_pos rfl]

theorem hasBare_cons {c : Char} (hc : c ≠ '\\') (q : Char) (cs : List Char) :
    hasBare q (c :: cs) = (c == q || hasBare q cs) := by
  rw [hasBare.eq_def]
  simp [hc]

/-- The ways to write a token in a source, given what comes behind it. A literal begins with a quote and ends with the
next bare one; only the end of the source can take its place. -/
inductive Token.Written (t : Token) (after : List Char) : List Char → Prop
  | plain (hkind : t.kind ≠ .literal) : Written t after (t.text ++ t.unit).toList
  | closed {q : Char} {body : List Char} (hkind : t.kind = .literal) (hquote : q = '"' ∨ q = '\'')
      (hbody : hasBare q body = false) (hclose : hasBare q (body ++ [q]) = true)
      (htext : t.text.toList = unescape body) : Written t after (q :: body ++ [q])
  | unclosed {q : Char} {body : List Char} (hkind : t.kind = .literal) (hquote : q = '"' ∨ q = '\'')
      (hbody : hasBare q body = false) (hafter : after = []) (htext : t.text.toList = unescape body) :
      Written t after (q :: body)

namespace Lexeme

/-- What follows an opening quote is a body up to the next bare quote, or all of the source. -/
theorem interior_eq_unescape {q : Char} (hq : q ≠ '\\') (cs : List Char) :
    (∃ body, (interior q cs).2.1 = body ++ [q] ∧ (interior q cs).1 = unescape body ∧ hasBare q body = false ∧
      hasBare q (body ++ [q]) = true) ∨
    ((interior q cs).2.2 = [] ∧ (interior q cs).1 = unescape (interior q cs).2.1 ∧
      hasBare q (interior q cs).2.1 = false) := by
  fun_induction interior q cs with
  | case1 => exact .inr ⟨rfl, rfl, rfl⟩
  | case2 cs => exact .inl ⟨[], rfl, rfl, rfl, by simp [hasBare, hq]⟩
  | case3 => exact .inr ⟨rfl, rfl, rfl⟩
  | case4 d ds text raw rest h _ ih =>
    simp only [h] at ih ⊢
    rcases ih with ⟨body, hraw, htext, hbody, hclose⟩ | ⟨hrest, htext, hbody⟩
    · refine .inl ⟨'\\' :: d :: body, by simp [hraw], by rw [unescape_escaped, htext], ?_, ?_⟩
      · rw [hasBare_escaped, hbody]
      · rw [List.cons_append, List.cons_append, hasBare_escaped, hclose]
    · exact .inr ⟨hrest, by rw [unescape_escaped, htext], by rw [hasBare_escaped, hbody]⟩
  | case5 c cs hc hb text raw rest h ih =>
    simp only [h] at ih ⊢
    have hcq : (c == q) = false := by simpa using hc
    rcases ih with ⟨body, hraw, htext, hbody, hclose⟩ | ⟨hrest, htext, hbody⟩
    · refine .inl ⟨c :: body, by simp [hraw], by rw [unescape_cons hb, htext], ?_, ?_⟩
      · rw [hasBare_cons hb, hcq, hbody, Bool.false_or]
      · rw [List.cons_append, hasBare_cons hb, hcq, hclose, Bool.false_or]
    · exact .inr ⟨hrest, by rw [unescape_cons hb, htext], by rw [hasBare_cons hb, hcq, hbody, Bool.false_or]⟩

theorem ne_backslash_of_quote {q : Char} (hq : q = '"' ∨ q = '\'') : q ≠ '\\' := by
  rcases hq with rfl | rfl <;> decide

theorem literal_written {q : Char} (hq : q = '"' ∨ q = '\'') (cs : List Char) (p : Position) :
    ((literal q cs).1.token p).Written (literal q cs).2 (literal q cs).1.raw := by
  rcases interior_eq_unescape (ne_backslash_of_quote hq) cs with ⟨body, hraw, htext, hbody, hclose⟩ | ⟨hrest, htext, hbody⟩
  · have h : ((literal q cs).1.token p).Written (literal q cs).2 (q :: body ++ [q]) :=
      .closed rfl hq hbody hclose (by simpa [literal, token] using htext)
    simpa [literal, hraw] using h
  · exact Token.Written.unclosed rfl hq hbody hrest (by simpa [literal, token] using htext)

/-- A lexeme other than a literal is written as its text and its unit. -/
theorem written_of_raw {l : Lexeme} (hkind : l.kind ≠ .literal) (hraw : l.raw = l.text ++ l.unit) (p : Position)
    (after : List Char) : (l.token p).Written after l.raw := by
  have h : (l.token p).Written after ((l.token p).text ++ (l.token p).unit).toList := .plain hkind
  simpa [token, hraw] using h

/-- **The first lexeme spells its token**, whichever class it falls into. -/
theorem first_written (c : Char) (cs : List Char) (p : Position) :
    ((first c cs).1.token p).Written (first c cs).2 (first c cs).1.raw := by
  unfold first
  split
  · exact written_of_raw (by simp [run]) (by simp [run]) p _
  split
  · exact written_of_raw (by simp [run]) (by simp [run]) p _
  split
  · exact written_of_raw (by simp) (by simp) p _
  split
  · next hquote => exact literal_written hquote cs p
  split
  · exact written_of_raw (by simp [number]) (by simp [number]) p _
  split
  · exact written_of_raw (by simp [run]) (by simp [run]) p _
  · exact written_of_raw (by simp) (by simp) p _

/-! ## All lexemes -/

/-- The lexemes of `cs`, behind the text `before`: none is empty, each spells its token, and each token knows where it
begins. -/
theorem place_all (before cs : List Char) (i : Nat) (piece : List Char) (t : Token)
    (hpiece : ((all cs).map raw)[i]? = some piece) (htoken : (place (Position.behind before) (all cs))[i]? = some t) :
    piece ≠ [] ∧ t.Written (((all cs).map raw).drop (i + 1)).flatten piece ∧
      t.position = Position.behind (before ++ (((all cs).map raw).take i).flatten) := by
  fun_induction all cs generalizing before i with
  | case1 => simp at hpiece
  | case2 c cs ih =>
    rw [place] at htoken
    cases i with
    | zero =>
      obtain rfl : (first c cs).1.raw = piece := by simpa using hpiece
      obtain rfl : (first c cs).1.token (Position.behind before) = t := by simpa using htoken
      refine ⟨first_raw_ne_nil c cs, ?_, by simp [token]⟩
      simpa [flatten_all] using first_written c cs (Position.behind before)
    | succ i =>
      rw [Position.advance_behind] at htoken
      obtain ⟨hne, hwritten, hposition⟩ := ih (before ++ (first c cs).1.raw) i (by simpa using hpiece)
        (by simpa using htoken)
      exact ⟨hne, by simpa using hwritten, by simpa using hposition⟩

theorem length_place (p : Position) (ls : List Lexeme) : (place p ls).length = ls.length := by
  induction ls generalizing p with
  | nil => rfl
  | cons l ls ih => simp [place, ih]

end Lexeme

/-- **Tokens partition their source.** There is a piece of the source for every token, in the same order; together the
pieces are the source and none is empty; each is a spelling of its token, and the token's position counts the line
feeds before the piece and the characters behind the last of them. -/
theorem Token.ofSource_partition (source : String) :
    ∃ pieces : List (List Char), pieces.flatten = source.toList ∧ pieces.length = (Token.ofSource source).length ∧
      ∀ (i : Nat) (piece : List Char) (t : Token), pieces[i]? = some piece → (Token.ofSource source)[i]? = some t →
        piece ≠ [] ∧ t.Written (pieces.drop (i + 1)).flatten piece ∧
          t.position = Position.behind (pieces.take i).flatten := by
  refine ⟨(Lexeme.all source.toList).map Lexeme.raw, Lexeme.flatten_all _, ?_, ?_⟩
  · simp [Token.ofSource, Lexeme.length_place]
  · intro i piece t hpiece htoken
    simpa using Lexeme.place_all [] source.toList i piece t hpiece htoken

end NestedStyles
