import NestedStyles.Proofs.Color.Notation
import NestedStyles.Proofs.Value.Spacing

/-!
# Empty values

A value is read as the empty text if there is none, and only then. Every color has a text, also one that stands in for
a call with mistakes, and every token of a source is written with a visible character. So an empty value has taken
nothing, and a value that has taken something is not empty.

- `Color.call_ne_empty`: calls.
- `Value.textUpTo_eq_empty_iff`: plain values.
- `Value.read_eq_empty_iff`, `Value.notes_eq_nil_of_empty`: all values.
- `Stream.perform_value_empty_iff`: a stream that is asked for a value.
-/

namespace NestedStyles

namespace Color

/-- Every color has a text. -/
theorem call_ne_empty (tokens : List Token) : (call tokens).value ≠ .ok "" :=
  fun h => (build_eq_ok_iff.1 h).ne_empty rfl

end Color

namespace Value

variable {tokens : List Token}

/-- The text of some tokens is empty only if there are none of them. -/
theorem textUpTo_eq_empty_iff (hlexed : ∀ t ∈ tokens, t.Lexed) {k : Nat} (hk : k ≤ tokens.length) :
    textUpTo tokens k = "" ↔ k = 0 := by
  constructor
  · intro hempty
    refine Nat.eq_zero_of_not_pos fun hpos => ?_
    have htight := textUpTo_tight hlexed hpos hk
    rw [hempty] at htight
    exact htight.ne_nil rfl
  · rintro rfl
    rfl

theorem drop_eq_self_iff {k : Nat} (hk : k ≤ tokens.length) : tokens.drop k = tokens ↔ k = 0 := by
  constructor
  · intro hsame
    have hlength := congrArg List.length hsame
    rw [List.length_drop] at hlength
    omega
  · rintro rfl
    rfl

/-- **A value is empty if and only if nothing is taken.** A fault takes the tokens of its call. -/
theorem read_eq_empty_iff (hlexed : ∀ t ∈ tokens, t.Lexed) :
    (read tokens).value = .ok "" ↔ (read tokens).rest = tokens := by
  cases tokens with
  | nil => exact iff_of_true rfl rfl
  | cons t ts =>
    by_cases hcolor : (t.isNamed "color" && nextIsMark ts ".") = true
    · have hcall : read (t :: ts) = Color.call (t :: ts) := if_pos hcolor
      rw [hcall]
      refine iff_of_false (Color.call_ne_empty _) fun hsame => ?_
      have hlength : (Color.call (t :: ts)).rest.length ≤ ts.length := (Color.call_suffix (t :: ts)).length_le
      rw [hsame, List.length_cons] at hlength
      omega
    by_cases habsent : isAbsent t ts = true
    · rw [read, if_neg hcolor, if_pos habsent]
      exact iff_of_true rfl rfl
    · have hplain : beginsPlain (t :: ts) = true := by
        refine (beginsPlain_cons_iff t ts).2 ⟨?_, ?_⟩
        · exact Bool.eq_false_iff.2 hcolor
        · exact Bool.eq_false_iff.2 habsent
      have hle := extent_le (t :: ts)
      rw [read_eq_textUpTo hplain hlexed, drop_eq_self_iff hle, ← textUpTo_eq_empty_iff hlexed hle]
      exact ⟨Except.ok.inj, congrArg Except.ok⟩

/-- Only a color call can have something to report, and it is never empty. -/
theorem notes_eq_nil_of_empty (h : (read tokens).value = .ok "") : (read tokens).notes = [] := by
  unfold read at h ⊢
  split
  · rfl
  · next t ts =>
    dsimp only at h
    split at h
    · exact absurd h (Color.call_ne_empty _)
    next hcolor =>
    rw [if_neg hcolor]
    split
    · rfl
    · rw [gather_eq_written]
      rfl

end Value

namespace Stream

variable {s : Stream}

/-- A stream stays where it is if all that it had before it is left. -/
theorem advance_position_iff (hs : s.position ≤ s.tokens.length) {α : Type} {p : Parsed α} (hp : p.rest <:+ s.rest) :
    (s.advance p).position = s.position ↔ p.rest = s.rest := by
  have hlength : s.rest.length = s.tokens.length - s.position := List.length_drop
  have hle := hp.length_le
  constructor
  · intro hsame
    apply hp.eq_of_length
    have hposition : s.tokens.length - p.rest.length = s.position := hsame
    omega
  · intro hsame
    show s.tokens.length - p.rest.length = s.position
    rw [hsame]
    omega

/-- **An empty value says that nothing was taken**, and then nothing was recorded. -/
theorem perform_value_empty_iff {source : String} (htokens : s.tokens = Token.significant source)
    (hs : s.position ≤ s.tokens.length) {text : String} {s' : Stream}
    (h : s.perform .value = (.ok (.text text), s')) :
    (text = "" ↔ s'.position = s.position) ∧ (text = "" → s'.notes = s.notes) := by
  have hvalue : (Value.read s.rest).value = .ok text := by
    have hreply : (Value.read s.rest).value.map Reply.text = .ok (.text text) := congrArg Prod.fst h
    cases hread : (Value.read s.rest).value with
    | error fault => rw [hread] at hreply; cases hreply
    | ok other =>
      rw [hread] at hreply
      cases hreply
      rfl
  obtain rfl : s.advance (Value.read s.rest) = s' := congrArg Prod.snd h
  have hempty : text = "" ↔ (Value.read s.rest).value = .ok "" := by
    rw [hvalue, Except.ok.injEq]
  rw [hempty, advance_position_iff hs (Value.read_suffix s.rest), Value.read_eq_empty_iff (lexed_of_mem_rest htokens)]
  refine ⟨Iff.rfl, fun hrest => ?_⟩
  have hnotes := Value.notes_eq_nil_of_empty ((Value.read_eq_empty_iff (lexed_of_mem_rest htokens)).2 hrest)
  show s.notes ++ (Value.read s.rest).notes = s.notes
  rw [hnotes, List.append_nil]

end Stream

end NestedStyles
