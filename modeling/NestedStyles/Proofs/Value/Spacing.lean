import NestedStyles.Proofs.Value.Extent

/-!
# The spaces in a value

The text of a plain value is the text of its tokens, and what stands between two of them is decided by the tokens around
that place: one space or nothing. A sign between two operands has a space on either side, with one exception: none
stands between the sign and `end`, also where `end` is part of the value because a bracket is open.

- `Value.signAt`: the signs between operands.
- `Value.separator`, `Value.textUpTo`: what stands between two tokens, and the text of the first tokens.
- `Value.join_eq_textUpTo`: the tokens of a value joined from the left to the right are that text.
- `Value.StandsFree`: a sign with exactly one space on either side.
- `Stream.perform_value_text`, `Stream.perform_value_standsFree`: reading a plain value from a stream of a source.
-/

namespace NestedStyles.Value

/-! ## Spaces by their places -/

/-- Whether the token at a place is a sign between operands: a plus or minus, behind a token that can end an operand and
before one that can begin one. The latter may be beyond the value. -/
def signAt (tokens : List Token) : Nat → Bool
  | 0 => false
  | i + 1 =>
    tokens[i + 1]?.any (fun t => t.isMark "+" || t.isMark "-")
      && tokens[i]?.any (fun t => t.isWordLike || t.isMark ")" || t.isMark "]")
      && tokens[i + 2]?.any (fun t => t.isWordLike || t.isMark "(")

/-- What stands before the token at a place: a space if this token is a sign between operands, if the one before it is
and this is not `end`, or if this is a word behind a word or a closing parenthesis. -/
def separator (tokens : List Token) : Nat → String
  | 0 => ""
  | i + 1 =>
    if signAt tokens (i + 1)
        || (signAt tokens i && !tokens[i + 1]?.any (·.isNamed "end"))
        || (tokens[i + 1]?.any (·.isWordLike) && tokens[i]?.any fun t => t.isWordLike || t.isMark ")") then " "
    else ""

/-- The text of the first `k` tokens: each of them behind what stands before it. -/
def textUpTo (tokens : List Token) : Nat → String
  | 0 => ""
  | k + 1 => textUpTo tokens k ++ separator tokens k ++ (tokens[k]?.map Token.render).getD ""

section Places

variable {tokens : List Token} {i : Nat} {previous t : Token}

theorem textUpTo_succ (ht : tokens[i]? = some t) :
    textUpTo tokens (i + 1) = textUpTo tokens i ++ separator tokens i ++ t.render := by
  rw [textUpTo, ht]
  rfl

theorem textUpTo_append {j k : Nat} (h : j ≤ k) (tokens : List Token) :
    ∃ more, textUpTo tokens k = textUpTo tokens j ++ more := by
  induction h with
  | refl => exact ⟨"", String.append_empty.symm⟩
  | @step k _ ih =>
    obtain ⟨more, hmore⟩ := ih
    exact ⟨more ++ separator tokens k ++ (tokens[k]?.map Token.render).getD "", by
      rw [textUpTo, hmore, String.append_assoc, String.append_assoc, String.append_assoc]⟩

theorem isBinarySign_eq_signAt (hprevious : tokens[i]? = some previous) (ht : tokens[i + 1]? = some t) :
    isBinarySign (some previous) t tokens[i + 2]? = signAt tokens (i + 1) := by
  rw [signAt, hprevious, ht]
  rfl

theorem gap_eq_separator (hprevious : tokens[i]? = some previous) (ht : tokens[i + 1]? = some t) :
    gap previous (signAt tokens i) t tokens[i + 2]? = separator tokens (i + 1) := by
  rw [gap, separator, isBinarySign_eq_signAt hprevious ht, hprevious, ht]
  rfl

/-- Joining goes through the tokens one after the other, and `i` is the place of the one before them. -/
theorem textUpTo_add (hprevious : tokens[i]? = some previous) {ts rest : List Token}
    (hdrop : tokens.drop (i + 1) = ts ++ rest) :
    textUpTo tokens (i + 1 + ts.length) =
      textUpTo tokens (i + 1) ++ joinAfter previous (signAt tokens i) rest.head? ts := by
  induction ts generalizing i previous with
  | nil => rw [joinAfter, String.append_empty]; rfl
  | cons t ts ih =>
    have ht : tokens[i + 1]? = some t := by
      rw [← List.head?_drop, hdrop]
      rfl
    have hmore : tokens.drop (i + 2) = ts ++ rest := by
      rw [← List.tail_drop, hdrop]
      rfl
    have hnext : tokens[i + 2]? = ts.head?.or rest.head? := by
      rw [← List.head?_drop, hmore, List.head?_append]
    have hlength : i + 1 + (t :: ts).length = i + 1 + 1 + ts.length := by
      rw [List.length_cons]
      omega
    rw [hlength, ih ht hmore, textUpTo_succ ht, joinAfter, ← hnext, gap_eq_separator hprevious ht,
      isBinarySign_eq_signAt hprevious ht]
    simp only [String.append_assoc]

end Places

/-- **The joined text is the text by places.** -/
theorem join_eq_textUpTo {tokens : List Token} {k : Nat} (hk : k ≤ tokens.length) :
    join (tokens.drop k).head? (tokens.take k) = textUpTo tokens k := by
  cases k with
  | zero => rfl
  | succ k =>
    cases tokens with
    | nil => simp at hk
    | cons t ts =>
      have hsplit : (t :: ts).drop 1 = ts.take k ++ ts.drop k := (List.take_append_drop k ts).symm
      have hlength : 0 + 1 + (ts.take k).length = k + 1 := by
        rw [List.length_take_of_le (Nat.le_of_succ_le_succ hk)]
        omega
      have htext := textUpTo_add (i := 0) rfl hsplit
      rw [hlength] at htext
      rw [htext]
      rfl

/-- A plain value of tokens of a source is read as the text of its tokens. -/
theorem read_eq_textUpTo {tokens : List Token} (h : beginsPlain tokens = true) (hlexed : ∀ t ∈ tokens, t.Lexed) :
    read tokens = ⟨.ok (textUpTo tokens (extent tokens)), tokens.drop (extent tokens), []⟩ := by
  cases tokens with
  | nil => cases h
  | cons t ts =>
    obtain ⟨hcolor, habsent⟩ := (beginsPlain_cons_iff t ts).1 h
    have hspan : ∀ u ∈ (span {} (t :: ts)).1, u.Lexed := by
      intro u hu
      rw [span_eq_extent] at hu
      exact hlexed u (List.mem_of_mem_take hu)
    rw [read_eq_join hcolor habsent hspan, span_eq_extent, join_eq_textUpTo (extent_le _)]

/-! ## Signs between operands -/

/-- In the text, behind `before`, a sign stands between two spaces. No blank is before the first and none behind the
second of them, so there is exactly one on either side. -/
structure StandsFree (text before : String) (sign next : Token) : Prop where
  spaced : ∃ more, text = before ++ " " ++ sign.render ++ " " ++ next.render ++ more
  before_tight : Text.Tight before.toList
  sign_tight : Text.Tight sign.render.toList
  next_tight : Text.Tight next.render.toList

theorem textUpTo_tight {tokens : List Token} (hlexed : ∀ t ∈ tokens, t.Lexed) {k : Nat} (hpos : 0 < k)
    (hk : k ≤ tokens.length) : Text.Tight (textUpTo tokens k).toList := by
  rw [← join_eq_textUpTo hk]
  cases htake : tokens.take k with
  | nil =>
    have hlength := congrArg List.length htake
    rw [List.length_take_of_le hk, List.length_nil] at hlength
    omega
  | cons t ts => exact join_tight (fun u hu => hlexed u (List.mem_of_mem_take (htake ▸ hu))) _

section Sign

variable {tokens : List Token} {i k : Nat} {sign next : Token}

theorem exists_of_signAt (h : signAt tokens i = true) :
    ∃ sign next, tokens[i]? = some sign ∧ tokens[i + 1]? = some next := by
  cases i with
  | zero => cases h
  | succ i =>
    simp only [signAt, Bool.and_eq_true] at h
    obtain ⟨⟨hsign, -⟩, hnext⟩ := h
    obtain ⟨sign, hs, -⟩ := (Option.any_eq_true _ _).1 hsign
    obtain ⟨next, hn, -⟩ := (Option.any_eq_true _ _).1 hnext
    exact ⟨sign, next, hs, hn⟩

/-- A space stands before a sign between operands. -/
theorem separator_of_signAt (h : signAt tokens i = true) : separator tokens i = " " := by
  cases i with
  | zero => cases h
  | succ i => rw [separator, h]; rfl

/-- A token that is written tight does not begin with a space. -/
theorem append_ne_space {text : String} (h : Text.Tight text.toList) (more more' : String) :
    text ++ more ≠ " " ++ more' := by
  obtain ⟨c, rest, hfirst, hc⟩ := h.first
  intro hsame
  have hlist := congrArg String.toList hsame
  rw [String.toList_append, String.toList_append, hfirst] at hlist
  obtain rfl : c = ' ' := List.head_eq_of_cons_eq hlist
  exact absurd hc (by decide)

variable (h : signAt tokens i = true) (hsign : tokens[i]? = some sign) (hnext : tokens[i + 1]? = some next)
include h hsign

theorem isSign_of_signAt : isSign sign = true := by
  cases i with
  | zero => cases h
  | succ i =>
    simp only [signAt, Bool.and_eq_true, hsign] at h
    exact h.1.1

include hnext

/-- A space stands behind it, unless `end` follows: the sign itself neither ends an operand nor is a word. -/
theorem separator_behind_sign : separator tokens (i + 1) = if next.isNamed "end" then "" else " " := by
  have hmark := isSign_of_signAt h hsign
  have hbinary : signAt tokens (i + 1) = false := by
    rw [← isBinarySign_eq_signAt hsign hnext]
    exact isBinarySign_of_isSign hmark next _
  have hword : (tokens[i + 1]?.any (·.isWordLike) && tokens[i]?.any fun t => t.isWordLike || t.isMark ")") = false := by
    rw [hsign, hnext]
    exact needsGap_of_isSign hmark next
  rw [separator, hbinary, h, hword, hnext]
  cases hend : next.isNamed "end" <;> simp [hend]

theorem textUpTo_sign (hk : i + 1 < k) :
    ∃ more, textUpTo tokens k =
      textUpTo tokens i ++ " " ++ sign.render ++ (if next.isNamed "end" then "" else " ") ++ next.render ++ more := by
  obtain ⟨more, hmore⟩ := textUpTo_append (Nat.succ_le_of_lt hk) tokens
  refine ⟨more, ?_⟩
  rw [hmore, textUpTo_succ hnext, textUpTo_succ hsign, separator_of_signAt h, separator_behind_sign h hsign hnext]

/-- **A sign between operands stands free** unless `end` follows. -/
theorem standsFree_iff (hlexed : ∀ t ∈ tokens, t.Lexed) (hk : i + 1 < k) (hle : k ≤ tokens.length) :
    StandsFree (textUpTo tokens k) (textUpTo tokens i) sign next ↔ next.isNamed "end" = false := by
  have hnext_tight := (hlexed next (List.mem_of_getElem? hnext)).render_tight
  obtain ⟨more, hmore⟩ := textUpTo_sign h hsign hnext hk
  constructor
  · rintro ⟨⟨more', hmore'⟩, -⟩
    cases hend : next.isNamed "end" with
    | false => rfl
    | true =>
      -- behind the sign, one side has the text of `end` and the other a space
      rw [hmore, hend, if_pos rfl, String.append_empty] at hmore'
      simp only [String.append_assoc, String.append_right_inj] at hmore'
      exact absurd hmore' (append_ne_space hnext_tight _ _)
  · intro hend
    rw [hend, if_neg Bool.false_ne_true] at hmore
    have hpos : 0 < i := by
      cases i with
      | zero => cases h
      | succ i => exact Nat.succ_pos i
    exact ⟨⟨more, hmore⟩, textUpTo_tight hlexed hpos (by omega),
      (hlexed sign (List.mem_of_getElem? hsign)).render_tight, hnext_tight⟩

end Sign

end NestedStyles.Value

namespace NestedStyles

namespace Sample

/-- A stream before a value with signs that stand free, one of them last and before an operand beyond the value, and
others that do not. -/
def signed : Stream := { Stream.ofSource "w = f(a - b) c[1] + -d 'e' - end" with position := 2 }

/-- A stream of a value with a sign before `end` and one behind it. -/
def aroundEnd : Stream := Stream.ofSource "calc(top - end + 2px)"

end Sample

namespace Stream

variable {s : Stream} {source : String}

theorem lexed_of_mem_rest (hs : s.tokens = Token.significant source) : ∀ t ∈ s.rest, t.Lexed :=
  fun _ ht => ⟨source, hs ▸ List.mem_of_mem_drop ht⟩

/-- **The text of a plain value.** The tokens that are taken are written one behind the other, with a space or nothing
between them as the tokens around that place ask for. -/
theorem perform_value_text (hs : s.tokens = Token.significant source) (h : Value.beginsPlain s.rest = true) :
    ∃ k ≤ s.rest.length,
      s.perform .value = (.ok (.text (Value.textUpTo s.rest k)), { s with position := s.position + k }) := by
  have hread := Value.read_eq_textUpTo h (lexed_of_mem_rest hs)
  exact ⟨Value.extent s.rest, Value.extent_le _, perform_value_of_read h hread⟩

theorem perform_value_text_signed :
    Sample.signed.tokens = Token.significant "w = f(a - b) c[1] + -d 'e' - end" ∧
      Value.beginsPlain Sample.signed.rest = true ∧
      Sample.signed.perform .value =
        (.ok (.text "f(a - b) c[1]+-d \"e\" -"), { Sample.signed with position := Sample.signed.position + 15 }) ∧
      Value.textUpTo Sample.signed.rest 15 = "f(a - b) c[1]+-d \"e\" -" := by
  have hplain : Value.beginsPlain Sample.signed.rest = true := by decide +kernel
  have hperform : Sample.signed.perform .value =
      (.ok (.text "f(a - b) c[1]+-d \"e\" -"), { Sample.signed with position := Sample.signed.position + 15 }) := by
    decide +kernel
  obtain ⟨k, -, hvalue⟩ := perform_value_text (rfl : Sample.signed.tokens = _) hplain
  obtain ⟨htext, rfl⟩ := eq_of_value_eq (hvalue.symm.trans hperform)
  exact ⟨rfl, hplain, hperform, htext⟩

/-- **A sign between operands has one space on either side** if both operands are in the value, with brackets open or
not; but there is none before `end`. -/
theorem perform_value_standsFree (hs : s.tokens = Token.significant source) (h : Value.beginsPlain s.rest = true) :
    ∃ k ≤ s.rest.length,
      s.perform .value = (.ok (.text (Value.textUpTo s.rest k)), { s with position := s.position + k }) ∧
      ∀ i, Value.signAt s.rest i = true → i + 1 < k →
        ∃ sign next, s.rest[i]? = some sign ∧ s.rest[i + 1]? = some next ∧
          (Value.StandsFree (Value.textUpTo s.rest k) (Value.textUpTo s.rest i) sign next ↔
            next.isNamed "end" = false) ∧
          (next.isNamed "end" = true → ∃ more,
            Value.textUpTo s.rest k = Value.textUpTo s.rest i ++ " " ++ sign.render ++ next.render ++ more) := by
  have hlexed := lexed_of_mem_rest hs
  have hle := Value.extent_le s.rest
  refine ⟨_, hle, perform_value_of_read h (Value.read_eq_textUpTo h hlexed), fun i hi hk => ?_⟩
  obtain ⟨sign, next, hsign, hnext⟩ := Value.exists_of_signAt hi
  refine ⟨sign, next, hsign, hnext, Value.standsFree_iff hi hsign hnext hlexed hk hle, fun hend => ?_⟩
  obtain ⟨more, hmore⟩ := Value.textUpTo_sign hi hsign hnext hk
  rw [hend, if_pos rfl, String.append_empty] at hmore
  exact ⟨more, hmore⟩

theorem perform_value_standsFree_aroundEnd :
    Sample.aroundEnd.tokens = Token.significant "calc(top - end + 2px)" ∧
      Value.beginsPlain Sample.aroundEnd.rest = true ∧
      Sample.aroundEnd.perform .value =
        (.ok (.text "calc(top -end + 2px)"), { Sample.aroundEnd with position := Sample.aroundEnd.position + 8 }) ∧
      (∃ sign next, Sample.aroundEnd.rest[3]? = some sign ∧ Sample.aroundEnd.rest[4]? = some next ∧
        ¬Value.StandsFree "calc(top -end + 2px)" "calc(top" sign next) ∧
      ∃ sign next, Sample.aroundEnd.rest[5]? = some sign ∧ Sample.aroundEnd.rest[6]? = some next ∧
        Value.StandsFree "calc(top -end + 2px)" "calc(top -end" sign next := by
  have hplain : Value.beginsPlain Sample.aroundEnd.rest = true := by decide +kernel
  have hperform : Sample.aroundEnd.perform .value =
      (.ok (.text "calc(top -end + 2px)"), { Sample.aroundEnd with position := Sample.aroundEnd.position + 8 }) := by
    decide +kernel
  have hfirst : Value.textUpTo Sample.aroundEnd.rest 3 = "calc(top" := by decide +kernel
  have hsecond : Value.textUpTo Sample.aroundEnd.rest 5 = "calc(top -end" := by decide +kernel
  have hend : Sample.aroundEnd.rest[4]?.map (·.isNamed "end") = some true := by decide +kernel
  have hother : Sample.aroundEnd.rest[6]?.map (·.isNamed "end") = some false := by decide +kernel
  obtain ⟨k, -, hvalue, hfree⟩ := perform_value_standsFree (rfl : Sample.aroundEnd.tokens = _) hplain
  obtain ⟨htext, rfl⟩ := eq_of_value_eq (hvalue.symm.trans hperform)
  obtain ⟨minus, word, hminus, hword, hglued, -⟩ := hfree 3 (by decide +kernel) (by decide)
  obtain ⟨plus, length, hplus, hlength, hspaced, -⟩ := hfree 5 (by decide +kernel) (by decide)
  rw [htext, hfirst] at hglued
  rw [htext, hsecond] at hspaced
  rw [hword] at hend
  rw [hlength] at hother
  refine ⟨rfl, hplain, hperform, ⟨minus, word, hminus, hword, fun h => ?_⟩, plus, length, hplus, hlength, ?_⟩
  · exact Bool.false_ne_true ((hglued.1 h).symm.trans (Option.some.inj hend))
  · exact hspaced.2 (Option.some.inj hother)

/-- A sign is glued to `end` although `end` is in the value, within brackets. In the text no sign stands free. -/
theorem perform_value_glued_end :
    (ofSource "calc(top - end)").perform .value =
        (.ok (.text "calc(top -end)"), { ofSource "calc(top - end)" with position := 6 }) ∧
      Value.beginsPlain (ofSource "calc(top - end)").rest = true ∧
      Value.signAt (ofSource "calc(top - end)").rest 3 = true ∧
      ∀ before sign next, (ofSource "calc(top - end)").rest[3]? = some sign →
        ¬Value.StandsFree "calc(top -end)" before sign next := by
  refine ⟨by decide +kernel, by decide +kernel, by decide +kernel, fun before sign next hsign hfree => ?_⟩
  obtain ⟨more, hmore⟩ := hfree.spaced
  have hrender : sign.render = "-" := by
    have hget : (ofSource "calc(top - end)").rest[3]?.map Token.render = some "-" := by decide +kernel
    rw [hsign] at hget
    exact Option.some.inj hget
  have hinfix : [' ', '-', ' '] <:+: "calc(top -end)".toList := by
    rw [hmore, hrender]
    refine ⟨before.toList, next.render.toList ++ more.toList, ?_⟩
    simp
  exact absurd hinfix (by decide +kernel)

end Stream

end NestedStyles
