import NestedStyles.Proofs.Token.Contents

/-!
# Where lexemes end

Each lexeme is as long as its class allows: the character behind it could not have been part of it. And it delimits
itself: taken out of its source, it is the same lexeme. A minus sign stands by itself only if it begins neither a
comment nor a number.

- `Lexeme.Stops`: what the character behind a lexeme cannot be.
- `Lexeme.first_stops`: this holds of the first lexeme of every text.
- `Lexeme.exists_first_of_all`: every lexeme of a source is the first one of what is left there.
- `Token.ofSource_delimited`: every lexeme of a source by itself, and the character behind it.
-/

namespace NestedStyles

namespace Lexeme

/-- A literal that ends with its first bare quote. -/
def IsClosed (l : Lexeme) : Prop :=
  ∃ q body, (q = '"' ∨ q = '\'') ∧ l.raw = q :: body ++ [q] ∧ hasBare q body = false ∧ hasBare q (body ++ [q]) = true

/-- The lexeme cannot go on with the character `c` behind it. -/
def Stops (l : Lexeme) (c : Char) : Prop :=
  match l.kind with
  | .blank => Text.isBlank c = false
  | .comment => c = '\n'
  | .identifier => c.isAlpha = false ∧ c.isDigit = false ∧ c ≠ '_' ∧ c ≠ '-'
  | .hex => isHexDigit c = false
  | .number => c.isAlpha = false ∧ c ≠ '%' ∧ (l.unit = [] → c.isDigit = false ∧ c ≠ '.')
  | .literal => l.IsClosed
  | .punctuation => True

/-! ## The first lexeme of a text -/

section First

variable {c d : Char} {cs ds : List Char}

/-- A run ends at the first character that is not in its class. -/
theorem class_of_dropWhile {p : Char → Bool} (h : cs.dropWhile p = d :: ds) : p d = false := by
  have hhead := List.head?_dropWhile_not p cs
  rw [h] at hhead
  exact hhead

theorem literal_stops (hc : c = '"' ∨ c = '\'') (h : (literal c cs).2 = d :: ds) : (literal c cs).1.Stops d := by
  have hrest : (interior c cs).2.2 = d :: ds := h
  rcases interior_eq_unescape (ne_backslash_of_quote hc) cs with ⟨body, hraw, -, hbody, hclose⟩ | ⟨hend, -⟩
  · refine ⟨c, body, hc, ?_, hbody, hclose⟩
    show c :: (interior c cs).2.1 = c :: body ++ [c]
    rw [hraw, List.cons_append]
  · -- a literal that is never closed has nothing behind it
    rw [hend] at hrest
    cases hrest

theorem number_stops (h : (number c cs).2 = d :: ds) : (number c cs).1.Stops d := by
  obtain ⟨body, hunit, hrest⟩ : ∃ body : List Char,
      (number c cs).1.unit = (body.dropWhile isNumberChar).takeWhile isUnitChar ∧
        (number c cs).2 = (body.dropWhile isNumberChar).dropWhile isUnitChar := by
    exact ⟨_, rfl, rfl⟩
  rw [hrest] at h
  have hd : isUnitChar d = false := class_of_dropWhile h
  rw [isUnitChar, Bool.or_eq_false_iff] at hd
  refine ⟨hd.1, beq_eq_false_iff_ne.1 hd.2, fun hnone => ?_⟩
  -- without a unit the character is the one at which the digits ended
  rw [hunit] at hnone
  have htail : body.dropWhile isNumberChar = d :: ds := by
    have happ := List.takeWhile_append_dropWhile (p := isUnitChar) (l := body.dropWhile isNumberChar)
    rwa [hnone, h, List.nil_append, eq_comm] at happ
  have hd : isNumberChar d = false := class_of_dropWhile htail
  rw [isNumberChar, Bool.or_eq_false_iff] at hd
  exact ⟨hd.1, beq_eq_false_iff_ne.1 hd.2⟩

/-- **The first lexeme of a text is as long as its class allows**, whichever class it falls into. -/
theorem first_stops (h : (first c cs).2 = d :: ds) : (first c cs).1.Stops d := by
  revert h
  unfold first
  split
  · intro h
    have hd : (d != '\n') = false := class_of_dropWhile (p := (· != '\n')) h
    exact bne_eq_false_iff_eq.1 hd
  split
  · intro h
    exact class_of_dropWhile h
  split
  · intro h
    exact class_of_dropWhile h
  split
  · next hquote => exact literal_stops hquote
  split
  · exact number_stops
  split
  · intro h
    have hd : isNameChar d = false := class_of_dropWhile h
    simp only [isNameChar, Bool.or_eq_false_iff, beq_eq_false_iff_ne] at hd
    obtain ⟨⟨⟨halpha, hdigit⟩, hunderscore⟩, hhyphen⟩ := hd
    exact ⟨halpha, hdigit, hunderscore, hhyphen⟩
  · intro _
    trivial

/-- A minus sign by itself begins neither a comment nor a number. -/
theorem first_hyphen (hraw : (first c cs).1.raw = ['-']) :
    (first c cs).2 = cs ∧ cs.head? ≠ some '-' ∧ startsDigits cs = false := by
  have happ := first_append c cs
  rw [hraw] at happ
  obtain ⟨rfl, hrest⟩ := List.cons.inj happ
  have hhead : cs.head? ≠ some '-' := by
    intro hhead
    obtain ⟨xs, rfl⟩ := List.head?_eq_some_iff.1 hhead
    rw [first, if_pos ⟨rfl, hhead⟩] at hraw
    cases hraw
  refine ⟨hrest, hhead, Bool.eq_false_iff.2 fun hdigits => ?_⟩
  -- the digits behind the sign would be part of its lexeme
  have hstarts : startsNumber '-' cs = true := by
    rw [startsNumber, hdigits]
    exact Bool.or_true _
  have hnumber : first '-' cs = number '-' cs := by
    rw [first, if_neg fun h => hhead h.2, if_neg (by decide), if_neg fun h => absurd h.1 (by decide),
      if_neg (by decide), if_pos hstarts]
  cases cs with
  | nil => cases hdigits
  | cons x xs =>
    have hx : isNumberChar x = true := isNumberChar_of_startsDigits hdigits
    rw [hnumber] at hraw
    simp [number, isSign, hx] at hraw

theorem hyphen_stops (hraw : (first c cs).1.raw = ['-']) (h : (first c cs).2 = d :: ds) :
    d ≠ '-' ∧ d.isDigit = false ∧ (d = '.' → ∀ e ∈ ds.head?, e.isDigit = false) := by
  obtain ⟨hrest, hhead, hdigits⟩ := first_hyphen hraw
  obtain rfl : cs = d :: ds := hrest.symm.trans h
  rw [startsDigits, Bool.or_eq_false_iff, Bool.and_eq_false_iff] at hdigits
  refine ⟨fun hd => hhead (congrArg some hd), hdigits.1, fun hpoint e he => ?_⟩
  rcases hdigits.2 with hne | hnone
  · exact absurd hpoint (beq_eq_false_iff_ne.1 hne)
  · rw [Option.mem_def.1 he] at hnone
    exact hnone

end First

/-! ## All lexemes of a source -/

/-- Every lexeme of a source is the first one of what is left of it there. -/
theorem exists_first_of_all {cs : List Char} {before after : List Lexeme} {l : Lexeme}
    (h : all cs = before ++ l :: after) :
    ∃ c ds, l = (first c ds).1 ∧ (after.map raw).flatten = (first c ds).2 := by
  fun_induction all cs generalizing before with
  | case1 => simp at h
  | case2 c cs ih =>
    cases before with
    | nil =>
      obtain ⟨rfl, rfl⟩ := List.cons.inj h
      exact ⟨c, cs, rfl, flatten_all _⟩
    | cons b before => exact ih (List.cons.inj h).2

theorem all_raw (c : Char) (cs : List Char) : all (first c cs).1.raw = [(first c cs).1] := by
  obtain ⟨ds, hraw, hfirst⟩ := first_raw c cs
  rw [hraw, all, hfirst, all]

theorem place_getElem? (p : Position) (before after : List Lexeme) (l : Lexeme) :
    (place p (before ++ l :: after))[before.length]? = some (l.token (p.advance (before.map raw).flatten)) := by
  induction before generalizing p with
  | nil => rfl
  | cons b before ih =>
    rw [List.cons_append, place, List.length_cons, List.getElem?_cons_succ, ih, List.map_cons, List.flatten_cons,
      Position.advance_append]

end Lexeme

open Lexeme in
/-- **Lexemes delimit themselves.** Let `l` be a lexeme of a source, so that the source is what is before it, what it
is written as, and what is behind it. Its token is at this place. The lexeme as a source of its own has exactly one
token, of the same kind, text and unit. A character behind it cannot be part of it; and if it is a minus sign, then
neither a second one nor the digits of a number are behind it. -/
theorem Token.ofSource_delimited (source : String) {before after : List Lexeme} {l : Lexeme}
    (h : all source.toList = before ++ l :: after) :
    source.toList = (before.map raw).flatten ++ l.raw ++ (after.map raw).flatten ∧
      (ofSource source)[before.length]? = some (l.token (Position.behind (before.map raw).flatten)) ∧
      ofSource (String.ofList l.raw) = [l.token {}] ∧
      ∀ c cs, (after.map raw).flatten = c :: cs →
        l.Stops c ∧ (l.raw = ['-'] → c ≠ '-' ∧ c.isDigit = false ∧ (c = '.' → ∀ d ∈ cs.head?, d.isDigit = false)) := by
  obtain ⟨c, cs, hl, hafter⟩ := exists_first_of_all h
  refine ⟨?_, ?_, ?_, ?_⟩
  · rw [← flatten_all source.toList, h]
    simp
  · rw [ofSource, h, place_getElem?]
    exact congrArg (fun p => some (l.token p)) (Position.advance_behind [] _)
  · rw [ofSource, String.toList_ofList, hl, all_raw]
    rfl
  · intro d ds hd
    rw [hafter] at hd
    exact ⟨hl ▸ first_stops hd, fun hraw => hyphen_stops (hl ▸ hraw) hd⟩

/-- A minus sign between the unit of a number and a point with no digit behind it. -/
theorem Token.ofSource_delimited_hyphen :
    Lexeme.all "2px-.x".toList =
        [⟨.number, ['2', 'p', 'x'], ['2'], ['p', 'x']⟩] ++ ⟨.punctuation, ['-'], ['-'], []⟩ ::
          [⟨.punctuation, ['.'], ['.'], []⟩, ⟨.identifier, ['x'], ['x'], []⟩] ∧
      (ofSource "2px-.x")[1]? =
        some ⟨.punctuation, String.ofList ['-'], String.ofList [], Position.behind ['2', 'p', 'x']⟩ ∧
      ofSource (String.ofList ['-']) = [⟨.punctuation, String.ofList ['-'], String.ofList [], {}⟩] ∧
      '.' ≠ '-' ∧ '.'.isDigit = false ∧ 'x'.isDigit = false := by
  have hall : Lexeme.all "2px-.x".toList =
      [⟨.number, ['2', 'p', 'x'], ['2'], ['p', 'x']⟩] ++ ⟨.punctuation, ['-'], ['-'], []⟩ ::
        [⟨.punctuation, ['.'], ['.'], []⟩, ⟨.identifier, ['x'], ['x'], []⟩] := by
    decide +kernel
  obtain ⟨-, htoken, halone, hbehind⟩ := ofSource_delimited "2px-.x" hall
  obtain ⟨-, hhyphen⟩ := hbehind '.' ['x'] rfl
  obtain ⟨hne, hdigit, hpoint⟩ := hhyphen rfl
  exact ⟨hall, htoken, halone, hne, hdigit, hpoint rfl 'x' rfl⟩

end NestedStyles
