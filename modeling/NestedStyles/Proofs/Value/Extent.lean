import NestedStyles.Proofs.Preliminaries
import NestedStyles.Proofs.Value.Joined
import NestedStyles.Stream

/-!
# How far a value reaches

A plain value reaches to the first place where no bracket is open and a comma, a closing brace, `end` or the key of the
next entry follows, or to the end. The three sorts of brackets are counted apart from one another, so they need not
match each other, and a closing bracket that closes nothing does not count.

- `Value.openCount`: how many brackets of one sort are open.
- `Value.EndsAt`: the places where a plain value may end.
- `Value.endsAt_extent`, `Value.not_endsAt_of_lt_extent`: the tokens of a value end at the first of them.
- `Stream.perform_value_extent`: what reading a plain value does to a stream.
-/

namespace NestedStyles.Value

/-! ## Where a plain value begins and may end -/

/-- Whether a plain value begins here: there is a token, it begins neither a color nor the next entry, and it is neither
`end` nor `function`. -/
def beginsPlain : List Token → Bool
  | [] => false
  | t :: ts =>
    !(t.isNamed "color" && nextIsMark ts ".")
      && !(t.isIdentifier && (nextIsMark ts "=" || nextIsMark ts "\x7b"))
      && !t.isNamed "end" && !t.isNamed "function"

/-- One more token for the count of the open brackets of one sort. The count stays at zero if there is none to close. -/
def count (opening closing : String) (n : Nat) (t : Token) : Nat :=
  if t.isMark opening then n + 1 else if t.isMark closing then n - 1 else n

/-- How many brackets of one sort are open behind the tokens. -/
def openCount (opening closing : String) (tokens : List Token) : Nat := tokens.foldl (count opening closing) 0

/-- Whether these tokens end a value before them. -/
def Breaks : List Token → Prop
  | [] => False
  | t :: ts => t.isMark "," ∨ t.isMark "\x7d" ∨ t.isNamed "end" ∨ t.isIdentifier ∧ nextIsMark ts "="

instance (tokens : List Token) : Decidable (Breaks tokens) :=
  match tokens with
  | [] => inferInstanceAs (Decidable False)
  | t :: ts => inferInstanceAs (Decidable (t.isMark "," ∨ t.isMark "\x7d" ∨ t.isNamed "end" ∨
      t.isIdentifier ∧ nextIsMark ts "="))

/-- Whether a value may end behind `k` tokens: these are all, or they leave no bracket open and the next ones end it. -/
def EndsAt (tokens : List Token) (k : Nat) : Prop :=
  k = tokens.length ∨
    (openCount "(" ")" (tokens.take k) = 0 ∧ openCount "[" "]" (tokens.take k) = 0 ∧
      openCount "\x7b" "\x7d" (tokens.take k) = 0) ∧ Breaks (tokens.drop k)

instance (tokens : List Token) (k : Nat) : Decidable (EndsAt tokens k) :=
  inferInstanceAs (Decidable (k = tokens.length ∨
    (openCount "(" ")" (tokens.take k) = 0 ∧ openCount "[" "]" (tokens.take k) = 0 ∧
      openCount "\x7b" "\x7d" (tokens.take k) = 0) ∧ Breaks (tokens.drop k)))

/-! ## The three counts -/

/-- A token changes each of the three counts for itself. -/
theorem Depth.track_eq (d : Depth) (t : Token) :
    d.track t = ⟨count "(" ")" d.paren t, count "[" "]" d.bracket t, count "\x7b" "\x7d" d.brace t⟩ := by
  unfold track
  -- a mark is at most one of the six brackets
  iterate 6
    split
    · next h => simp [count, h, Token.isMark_of_ne h]
  simp_all [count]

theorem Depth.foldl_track (d : Depth) (tokens : List Token) :
    tokens.foldl track d =
      ⟨tokens.foldl (count "(" ")") d.paren, tokens.foldl (count "[" "]") d.bracket,
        tokens.foldl (count "\x7b" "\x7d") d.brace⟩ := by
  induction tokens generalizing d with
  | nil => rfl
  | cons t ts ih => rw [List.foldl_cons, ih, track_eq]; rfl

theorem Depth.isZero_foldl_iff (tokens : List Token) :
    (tokens.foldl track {}).isZero = true ↔
      openCount "(" ")" tokens = 0 ∧ openCount "[" "]" tokens = 0 ∧ openCount "\x7b" "\x7d" tokens = 0 := by
  simp only [foldl_track, isZero, Bool.and_eq_true, beq_iff_eq, and_assoc]
  rfl

/-- Literals are neither opening nor closing brackets. -/
theorem openCount_filter (opening closing : String) (tokens : List Token) :
    openCount opening closing (tokens.filter fun t => t.kind != .literal) = openCount opening closing tokens := by
  unfold openCount
  rw [List.foldl_filter]
  congr
  funext n t
  by_cases hkind : t.kind = .literal <;> simp [count, Token.isMark, hkind]

/-! ## The first place -/

/-- Whether the value ends here, with the brackets of `depth` open. -/
def endsHere (depth : Depth) : List Token → Bool
  | [] => true
  | t :: ts => depth.isZero && stops t ts

theorem span_of_endsHere {depth : Depth} {tokens : List Token} (h : endsHere depth tokens = true) :
    span depth tokens = ([], tokens) := by
  cases tokens with
  | nil => rfl
  | cons t ts => exact if_pos h

theorem span_cons {depth : Depth} {t : Token} {ts : List Token} (h : endsHere depth (t :: ts) = false) :
    span depth (t :: ts) = (t :: (span (depth.track t) ts).1, (span (depth.track t) ts).2) :=
  if_neg (by simpa [endsHere] using h)

/-- The value ends behind the tokens that are cut off. -/
theorem endsHere_span (depth : Depth) (tokens : List Token) :
    endsHere ((span depth tokens).1.foldl Depth.track depth) (span depth tokens).2 = true := by
  induction tokens generalizing depth with
  | nil => rfl
  | cons t ts ih =>
    cases hends : endsHere depth (t :: ts) with
    | true => rwa [span_of_endsHere hends]
    | false => rw [span_cons hends]; exact ih (depth.track t)

/-- It does not end before. -/
theorem endsHere_of_lt_span (depth : Depth) (tokens : List Token) {j : Nat} (hj : j < (span depth tokens).1.length) :
    endsHere ((tokens.take j).foldl Depth.track depth) (tokens.drop j) = false := by
  induction tokens generalizing depth j with
  | nil => simp [span] at hj
  | cons t ts ih =>
    cases hends : endsHere depth (t :: ts) with
    | true => simp [span_of_endsHere hends] at hj
    | false =>
      rw [span_cons hends] at hj
      cases j with
      -- the first place is the one just looked at, every other one is a place of `ts`
      | zero => exact hends
      | succ j => exact ih (depth.track t) (Nat.lt_of_succ_lt_succ hj)

theorem breaks_iff_stops (t : Token) (ts : List Token) : Breaks (t :: ts) ↔ stops t ts = true := by
  simp only [Breaks, stops, Bool.or_eq_true, Bool.and_eq_true, or_assoc]

theorem endsAt_iff_endsHere {tokens : List Token} {k : Nat} (hk : k ≤ tokens.length) :
    EndsAt tokens k ↔ endsHere ((tokens.take k).foldl Depth.track {}) (tokens.drop k) = true := by
  rw [EndsAt, ← Depth.isZero_foldl_iff]
  cases hdrop : tokens.drop k with
  | nil =>
    have hall : k = tokens.length := Nat.le_antisymm hk (List.drop_eq_nil_iff.1 hdrop)
    exact iff_of_true (.inl hall) rfl
  | cons t ts =>
    have hnot : k ≠ tokens.length := by
      rintro rfl
      simp at hdrop
    rw [breaks_iff_stops, endsHere, Bool.and_eq_true, or_iff_right hnot]

/-- How many tokens a plain value takes. -/
def extent (tokens : List Token) : Nat := (span {} tokens).1.length

theorem span_eq_extent (tokens : List Token) :
    span {} tokens = (tokens.take (extent tokens), tokens.drop (extent tokens)) := by
  have htake : tokens.take (extent tokens) = (span {} tokens).1 := by
    calc tokens.take (extent tokens)
        = ((span {} tokens).1 ++ (span {} tokens).2).take (span {} tokens).1.length := by rw [span_append]; rfl
      _ = (span {} tokens).1 := List.take_left
  have hdrop : tokens.drop (extent tokens) = (span {} tokens).2 := by
    calc tokens.drop (extent tokens)
        = ((span {} tokens).1 ++ (span {} tokens).2).drop (span {} tokens).1.length := by rw [span_append]; rfl
      _ = (span {} tokens).2 := List.drop_left
  rw [htake, hdrop]

theorem extent_le (tokens : List Token) : extent tokens ≤ tokens.length := by
  have hlength := congrArg List.length (span_append {} tokens)
  rw [List.length_append] at hlength
  unfold extent
  omega

theorem endsAt_extent (tokens : List Token) : EndsAt tokens (extent tokens) := by
  have hends := endsHere_span {} tokens
  rw [span_eq_extent] at hends
  exact (endsAt_iff_endsHere (extent_le tokens)).2 hends

theorem not_endsAt_of_lt_extent {tokens : List Token} {j : Nat} (hj : j < extent tokens) : ¬EndsAt tokens j := by
  rw [endsAt_iff_endsHere (Nat.le_trans (Nat.le_of_lt hj) (extent_le tokens)), endsHere_of_lt_span {} tokens hj]
  exact Bool.false_ne_true

/-- A literal ends no value before it. -/
theorem not_endsAt_of_literal {tokens : List Token} {i : Nat} {t : Token} (ht : tokens[i]? = some t)
    (hkind : t.kind = .literal) : ¬EndsAt tokens i := by
  obtain ⟨hi, hget⟩ := List.getElem?_eq_some_iff.1 ht
  rw [EndsAt, List.drop_eq_getElem_cons hi, hget, breaks_iff_stops]
  have hstops : stops t (tokens.drop (i + 1)) = false := by
    simp [stops, Token.isMark, Token.isNamed, Token.isIdentifier, hkind]
  rw [hstops]
  rintro (rfl | ⟨-, h⟩)
  · exact Nat.lt_irrefl _ hi
  · exact Bool.false_ne_true h

/-! ## Reading -/

theorem beginsPlain_cons_iff (t : Token) (ts : List Token) :
    beginsPlain (t :: ts) = true ↔
      (t.isNamed "color" && nextIsMark ts ".") = false ∧ isAbsent t ts = false := by
  simp only [beginsPlain, isAbsent, Bool.and_eq_true, Bool.not_eq_true', Bool.or_eq_false_iff, and_assoc]

theorem ne_nil_of_beginsPlain {tokens : List Token} (h : beginsPlain tokens = true) : tokens ≠ [] := by
  rintro rfl
  cases h

theorem read_of_beginsPlain {tokens : List Token} (h : beginsPlain tokens = true) :
    ∃ text, read tokens = ⟨.ok text, tokens.drop (extent tokens), []⟩ := by
  cases tokens with
  | nil => cases h
  | cons t ts =>
    obtain ⟨hcolor, habsent⟩ := (beginsPlain_cons_iff t ts).1 h
    refine ⟨Text.trim (gather {} none "" (t :: ts)).value, ?_⟩
    rw [read, if_neg (by simp [hcolor]), if_neg (by simp [habsent]), gather_eq_written, span_eq_extent]
    rfl

end NestedStyles.Value

namespace NestedStyles.Stream

/-- A value moves the stream over the tokens that it takes. -/
theorem perform_value_of_read {s : Stream} {text : String} (h : Value.beginsPlain s.rest = true)
    (hread : Value.read s.rest = ⟨.ok text, s.rest.drop (Value.extent s.rest), []⟩) :
    s.perform .value = (.ok (.text text), { s with position := s.position + Value.extent s.rest }) := by
  have hposition : s.tokens.length - (s.rest.drop (Value.extent s.rest)).length =
      s.position + Value.extent s.rest := by
    -- there is a token, so the stream does not stand behind its last one
    have hpos := List.length_pos_iff.2 (Value.ne_nil_of_beginsPlain h)
    have hle := Value.extent_le s.rest
    rw [List.length_drop]
    have hlength : s.rest.length = s.tokens.length - s.position := List.length_drop
    omega
  rw [perform, reading, hread, advance, hposition, List.append_nil]
  rfl

/-- **The extent of a plain value.** Reading it records nothing and takes the tokens up to the first place where it may
end. Literals count neither as brackets nor as the end. -/
theorem perform_value_extent (s : Stream) (h : Value.beginsPlain s.rest = true) :
    (∃ k text, s.perform .value = (.ok (.text text), { s with position := s.position + k }) ∧
      Value.EndsAt s.rest k ∧ ∀ j < k, ¬Value.EndsAt s.rest j) ∧
    (∀ opening closing k, Value.openCount opening closing (s.rest.take k) =
      Value.openCount opening closing ((s.rest.take k).filter fun t => t.kind != .literal)) ∧
    ∀ i t, s.rest[i]? = some t → t.kind = .literal → ¬Value.EndsAt s.rest i := by
  obtain ⟨text, hread⟩ := Value.read_of_beginsPlain h
  refine ⟨⟨_, text, perform_value_of_read h hread, Value.endsAt_extent _, fun j hj => ?_⟩, ?_, ?_⟩
  · exact Value.not_endsAt_of_lt_extent hj
  · exact fun opening closing k => (Value.openCount_filter opening closing _).symm
  · exact fun i t ht hkind => Value.not_endsAt_of_literal ht hkind

/-- The place of a stream after a value says how many tokens it took. -/
theorem eq_of_value_eq {s : Stream} {text text' : String} {k k' : Nat}
    (h : ((.ok (.text text) : Except Fault Reply), { s with position := s.position + k }) =
      (.ok (.text text'), { s with position := s.position + k' })) : text = text' ∧ k = k' := by
  simp only [Prod.mk.injEq, Except.ok.injEq, Reply.text.injEq, Stream.mk.injEq, true_and, and_true,
    Nat.add_left_cancel_iff] at h
  exact h

end NestedStyles.Stream

namespace NestedStyles

namespace Sample

/-- A stream before a value whose brackets cross, with one that closes nothing, and with literals that look like a
bracket, `end` and an equals sign. -/
def crossing : Stream := { Stream.ofSource "0, f(\"\x7d\" [a, b)\x7d = ] \"end\" x \"=\" end" with position := 2 }

end Sample

theorem Stream.perform_value_extent_crossing :
    Value.beginsPlain Sample.crossing.rest = true ∧
      Sample.crossing.perform .value =
        (.ok (.text "f(\"\x7d\"[a,b)\x7d=]\"end\" x \"=\""),
          { Sample.crossing with position := Sample.crossing.position + 14 }) ∧
      Value.EndsAt Sample.crossing.rest 14 ∧ (∀ j < 14, ¬Value.EndsAt Sample.crossing.rest j) := by
  have hplain : Value.beginsPlain Sample.crossing.rest = true := by decide +kernel
  have hperform : Sample.crossing.perform .value =
      (.ok (.text "f(\"\x7d\"[a,b)\x7d=]\"end\" x \"=\""),
        { Sample.crossing with position := Sample.crossing.position + 14 }) := by decide +kernel
  obtain ⟨⟨k, text, hvalue, hends, hleast⟩, -⟩ := perform_value_extent Sample.crossing hplain
  obtain ⟨-, rfl⟩ := eq_of_value_eq (hvalue.symm.trans hperform)
  exact ⟨hplain, hperform, hends, hleast⟩

end NestedStyles
