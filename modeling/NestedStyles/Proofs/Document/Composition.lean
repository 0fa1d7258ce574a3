import NestedStyles.Proofs.Locality
import NestedStyles.Proofs.Token.Seam

/-!
# Documents one after the other

Two sources with a line feed between them are read as the one and then the other, if the first ends with a closing
brace and no diagnostic about it lacks a place. The brace keeps every look ahead inside the first source, and a block
that is still open at its end would be reported without a place.

- `Document.read_append`: reading tokens that end with a closing brace, and more tokens.
- `Document.read_significant_append`: reading two sources with a line feed between them.
-/

namespace NestedStyles.Document

/-! ## Tokens that end with a closing brace -/

/-- The last token, if there is one, is a closing brace. -/
def Closed (tokens : List Token) : Prop := ∀ t ∈ tokens.getLast?, t.isMark "\x7d" = true

theorem Closed.of_suffix {tokens rest : List Token} (h : Closed tokens) (hrest : rest <:+ tokens) : Closed rest := by
  obtain ⟨front, rfl⟩ := hrest
  intro t ht
  rw [Option.mem_def] at ht
  exact h t (by rw [List.getLast?_append, ht, Option.some_or]; rfl)

theorem Closed.ne_nil_of_cons {t : Token} {ts : List Token} (h : Closed (t :: ts)) (ht : t.isMark "\x7d" = false) :
    ts ≠ [] := by
  rintro rfl
  simp [h t rfl] at ht

theorem Closed.tail_ne_nil {tokens : List Token} (h : Closed tokens) {mark : String}
    (hmark : nextIsMark tokens mark = true) (hne : mark ≠ "\x7d") : tokens.tail ≠ [] := by
  match tokens with
  | t :: ts => exact h.ne_nil_of_cons (Token.isMark_of_ne hmark hne)

/-- Only a closing brace that is expected takes the last token. -/
theorem Closed.rest_expect_ne_nil {tokens : List Token} (h : Closed tokens) (hne : tokens ≠ []) {wanted : String}
    (hwanted : wanted ≠ "\x7d") : (expect wanted tokens).rest ≠ [] := by
  obtain ⟨t, ts, rfl⟩ := List.exists_cons_of_ne_nil hne
  rw [expect]
  split
  · next htext => exact h.ne_nil_of_cons (by simp [Token.isMark, htext.1, hwanted])
  · exact List.cons_ne_nil t ts

theorem Closed.rest_bracketedSelector_ne_nil {tokens : List Token} (h : Closed tokens) (hne : tokens ≠ []) :
    (bracketedSelector tokens).rest ≠ [] := by
  obtain ⟨t, ts, rfl⟩ := List.exists_cons_of_ne_nil hne
  rw [bracketedSelector]
  split
  · next hliteral =>
    have hts := h.ne_nil_of_cons (by simp [Token.isMark, hliteral])
    exact (h.of_suffix (List.suffix_cons t ts)).rest_expect_ne_nil hts (by decide)
  · exact h.rest_expect_ne_nil hne (by decide)

/-- A selector leaves a token, and what follows that is not looked at. -/
theorem Closed.selector?_followedBy {t : Token} {ts : List Token} (h : Closed (t :: ts)) {s : Parsed String}
    (hs : selector? t ts = some s) (more : List Token) :
    s.rest ≠ [] ∧ selector? t (ts ++ more) = some (s.followedBy more) := by
  unfold selector? at hs ⊢
  split at hs
  · next hword =>
    cases hs
    exact ⟨h.ne_nil_of_cons (Token.isMark_of_isIdentifier hword _), if_pos hword⟩
  next hword =>
  split at hs
  · next hbracket =>
    cases hs
    have hts := h.ne_nil_of_cons (Token.isMark_of_ne hbracket (by decide))
    have hrest := (h.of_suffix (List.suffix_cons t ts)).rest_bracketedSelector_ne_nil hts
    rw [if_neg hword, if_pos hbracket, bracketedSelector_followedBy more hrest]
    exact ⟨hrest, rfl⟩
  · cases hs

/-- Whether a selector begins with a token depends on that token alone. -/
theorem selector?_eq_none_iff {t : Token} {ts : List Token} :
    selector? t ts = none ↔ t.isIdentifier = false ∧ t.isMark "[" = false := by
  unfold selector?
  by_cases hword : t.isIdentifier = true <;> by_cases hbracket : t.isMark "[" = true <;> simp [hword, hbracket]

/-! ## Reading on -/

/-- What is read behind a block goes behind it. -/
theorem map_cons_map_append (b : Block) (bs : List Block) (p : Parsed (Except Fault (List Block))) :
    (p.map (Except.map (bs ++ ·))).map (Except.map (b :: ·)) = p.map (Except.map (b :: bs ++ ·)) := by
  obtain ⟨value, rest, notes⟩ := p
  cases value <;> rfl

/-- A block and all behind it can be read on from, if that is so of what is behind it. -/
theorem readFrom_append {selector : String} {tokens more : List Token} {blocks : List Block}
    (h : (readFrom selector tokens).Settled blocks)
    (ih : ∀ bs, (read (Block.read selector tokens).rest).Settled bs →
      read ((Block.read selector tokens).rest ++ more) =
        ((read more).map (Except.map (bs ++ ·))).after (read (Block.read selector tokens).rest).notes) :
    readFrom selector (tokens ++ more) =
      ((read more).map (Except.map (blocks ++ ·))).after (readFrom selector tokens).notes := by
  obtain ⟨b, hb, hbehind⟩ := h.of_andThen
  obtain ⟨bs, hbs, rfl⟩ := hbehind.of_map
  have hb' : ((Block.read selector tokens).followedBy more).value = .ok b := hb.ok
  rw [readFrom, readFrom, Block.read_followedBy more hb, Parsed.andThen_of_ok hb', Parsed.andThen_of_ok hb.ok]
  simp only [Parsed.followedBy, ih bs hbs, ← map_cons_map_append]
  simp [Parsed.after, Parsed.map]

/-- **Reading tokens that end with a closing brace, and more tokens**, is reading the ones and then the others. -/
theorem read_append {tokens : List Token} {blocks : List Block} (hclosed : Closed tokens)
    (h : (read tokens).Settled blocks) (more : List Token) :
    read (tokens ++ more) = ((read more).map (Except.map (blocks ++ ·))).after (read tokens).notes := by
  match tokens with
  | [] =>
    have hnil : read [] = ⟨.ok [], [], []⟩ := by rw [read]
    rw [hnil] at h ⊢
    cases h.ok
    rw [List.nil_append]
    generalize read more = p
    obtain ⟨value, rest, notes⟩ := p
    cases value <;> rfl
  | t :: ts =>
    cases hs : selector? t ts with
    | none =>
      have hs' : selector? t (ts ++ more) = none := selector?_eq_none_iff.2 (selector?_eq_none_iff.1 hs)
      rw [read_of_none hs] at h ⊢
      rw [List.cons_append, read_of_none hs', read_append (hclosed.of_suffix (List.suffix_cons t ts)) h more]
    | some s =>
      obtain ⟨hrest, hs'⟩ := hclosed.selector?_followedBy hs more
      have hsuffix := selector?_suffix hs
      have hclosed' := hclosed.of_suffix (hsuffix.trans (List.suffix_cons t ts))
      have hlength := hsuffix.length_le
      have htail := (List.tail_suffix s.rest).length_le
      have hblock := (Block.read_suffix s.value s.rest.tail).length_le
      rw [read_of_some hs] at h ⊢
      rw [List.cons_append, read_of_some hs']
      -- the looks ahead stay inside the first tokens, so both sides take the same branch
      simp only [Parsed.followedBy, nextIsMark_followedBy more hrest, List.tail_append_of_ne_nil hrest]
      by_cases hequals : (!nextIsMark s.rest "=") = true
      · simp only [if_pos hequals] at h ⊢
        rw [read_append hclosed' h.of_after more, Parsed.after_after]
        rfl
      have hbehind : s.rest.tail ≠ [] := hclosed'.tail_ne_nil (by simpa using hequals) (by decide)
      have hclosed'' := hclosed'.of_suffix (List.tail_suffix s.rest)
      simp only [if_neg hequals, nextIsMark_followedBy more hbehind] at h ⊢
      by_cases hbrace : (!nextIsMark s.rest.tail "\x7b") = true
      · simp only [if_pos hbrace] at h ⊢
        rw [read_append hclosed'' h.of_after more, Parsed.after_after]
        rfl
      simp only [if_neg hbrace] at h ⊢
      rw [readFrom_append h.of_after fun bs hbs => read_append (hclosed''.of_suffix (Block.read_suffix ..)) hbs more,
        Parsed.after_after]
      rfl
termination_by tokens.length
decreasing_by all_goals simp only [List.length_cons]; omega

/-- **Two sources with a line feed between them are read as the one and then the other**, if the last token of the
first is a closing brace and every diagnostic about it has a place. The diagnostics about the second are moved down by
the lines of the first. -/
theorem read_significant_append (a b : String) (last : Token) (blocks : List Block)
    (hlast : (Token.significant a).getLast? = some last) (hbrace : last.isMark "\x7d" = true)
    (hok : (read (Token.significant a)).value = .ok blocks)
    (hplaced : ∀ d ∈ (read (Token.significant a)).notes, d.line ≠ none) :
    (read (Token.significant (a ++ "\n" ++ b))).value = (read (Token.significant b)).value.map (blocks ++ ·) ∧
      (read (Token.significant (a ++ "\n" ++ b))).notes =
        (read (Token.significant a)).notes ++ (read (Token.significant b)).notes.map fun d =>
          { d with line := d.line.map (· + ((1 + a.toList.count '\n' : Nat) : Int)) } := by
  have hclosed : Closed (Token.significant a) := by
    intro t ht
    rw [hlast, Option.mem_some_iff] at ht
    exact ht ▸ hbrace
  have hkind : ∀ t ∈ (Token.significant a).getLast?, t.kind ≠ .literal := by
    intro t ht
    rw [(Token.isMark_iff.1 (hclosed t ht)).1]
    decide
  rw [Token.significant_append a b hkind, read_append hclosed ⟨hok, hplaced⟩, read_relocate]
  exact ⟨rfl, rfl⟩

namespace Sample

/-- A block with an unknown color, and a comment behind it. -/
def upper : String := "nav = \x7b\n ink = color.mix(1), \x7d -- done"

/-- A selector without its closing bracket, and a block that is not closed. -/
def lower : String := "[\"a\" = \x7b top = 0 \x7d\nul = \x7b gap = 1px"

end Sample

theorem read_significant_append_sample :
    (Token.significant Sample.upper).getLast? = some ⟨.punctuation, "\x7d", "", ⟨2, 22⟩⟩ ∧
      (read (Token.significant Sample.upper)).value = .ok [⟨"nav", [⟨"ink", "#000000"⟩], []⟩] ∧
      (read (Token.significant Sample.upper)).notes = [⟨.unknownColor "mix", some 2, some 14⟩] ∧
      (read (Token.significant (Sample.upper ++ "\n" ++ Sample.lower))).value =
        .ok [⟨"nav", [⟨"ink", "#000000"⟩], []⟩, ⟨"a", [⟨"top", "0"⟩], []⟩, ⟨"ul", [⟨"gap", "1px"⟩], []⟩] ∧
      (read (Token.significant (Sample.upper ++ "\n" ++ Sample.lower))).notes =
        [⟨.unknownColor "mix", some 2, some 14⟩, ⟨.expected "]" (some "="), some 3, some 6⟩,
          ⟨.expected "\x7d" none, none, none⟩] := by
  have hlast : (Token.significant Sample.upper).getLast? = some ⟨.punctuation, "\x7d", "", ⟨2, 22⟩⟩ := by
    decide +kernel
  have hok : (read (Token.significant Sample.upper)).value = .ok [⟨"nav", [⟨"ink", "#000000"⟩], []⟩] := by
    decide +kernel
  have hnotes : (read (Token.significant Sample.upper)).notes = [⟨.unknownColor "mix", some 2, some 14⟩] := by
    decide +kernel
  obtain ⟨hvalue, hall⟩ := read_significant_append Sample.upper Sample.lower _ _ hlast rfl hok (by simp [hnotes])
  exact ⟨hlast, hok, hnotes, hvalue.trans (by decide +kernel), hall.trans (by decide +kernel)⟩

end NestedStyles.Document
