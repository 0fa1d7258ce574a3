import NestedStyles.Fault

/-!
# Reading from a list of tokens

What reads tokens gives a value, the tokens it leaves and the diagnostics it records. It never looks behind the first
token it is given, so the tokens are a list and what is left is a suffix of it.

- `Parsed.andThen_suffix`, `expect_suffix`, `skipComma_suffix`: what is left is a suffix of what was given.
-/

namespace NestedStyles

structure Parsed (α : Type) where
  value : α
  rest : List Token
  notes : List Diagnostic := []
deriving DecidableEq, Repr

namespace Parsed

variable {α β γ : Type}

def map (f : α → β) (p : Parsed α) : Parsed β := ⟨f p.value, p.rest, p.notes⟩

/-- The same with earlier diagnostics in front. -/
def after (notes : List Diagnostic) (p : Parsed α) : Parsed α := { p with notes := notes ++ p.notes }

/-- Go on with the tokens that are left, unless there was a fault. A fault keeps what was taken and recorded. -/
def andThen (p : Parsed (Except Fault α)) (next : α → List Token → Parsed (Except Fault β)) :
    Parsed (Except Fault β) :=
  match p.value with
  | .error fault => ⟨.error fault, p.rest, p.notes⟩
  | .ok a => (next a p.rest).after p.notes

@[simp]
theorem map_value (f : α → β) (p : Parsed α) : (p.map f).value = f p.value := rfl

@[simp]
theorem map_notes (f : α → β) (p : Parsed α) : (p.map f).notes = p.notes := rfl

@[simp]
theorem after_value (notes : List Diagnostic) (p : Parsed α) : (p.after notes).value = p.value := rfl

@[simp]
theorem after_rest (notes : List Diagnostic) (p : Parsed α) : (p.after notes).rest = p.rest := rfl

@[simp]
theorem after_notes (notes : List Diagnostic) (p : Parsed α) : (p.after notes).notes = notes ++ p.notes := rfl

/-- What is read in two parts leaves a suffix, if the second part does. -/
theorem andThen_suffix {p : Parsed (Except Fault α)} {next : α → List Token → Parsed (Except Fault β)}
    {tokens : List Token} (hp : p.rest <:+ tokens) (hnext : ∀ a rest, (next a rest).rest <:+ rest) :
    (p.andThen next).rest <:+ tokens := by
  unfold andThen
  split
  · exact hp
  · exact (hnext ..).trans hp

/-! ## Continuing an outcome -/

/-- A value is gone on from, with the diagnostics of both parts. -/
theorem andThen_of_ok {p : Parsed (Except Fault α)} {a : α} (h : p.value = .ok a)
    (next : α → List Token → Parsed (Except Fault β)) : p.andThen next = (next a p.rest).after p.notes := by
  simp only [andThen, h]

/-- There is a value behind two parts only if each of them has one. -/
theorem exists_of_andThen {p : Parsed (Except Fault α)} {next : α → List Token → Parsed (Except Fault β)} {b : β}
    (h : (p.andThen next).value = .ok b) : ∃ a, p.value = .ok a ∧ (next a p.rest).value = .ok b := by
  unfold andThen at h
  split at h
  · cases h
  · next a hvalue => exact ⟨a, hvalue, h⟩

theorem after_after (xs ys : List Diagnostic) (p : Parsed α) : (p.after ys).after xs = p.after (xs ++ ys) := by
  simp [after]

/-- Earlier diagnostics stay in front of whatever is read later. -/
theorem andThen_after (xs : List Diagnostic) (p : Parsed (Except Fault α))
    (next : α → List Token → Parsed (Except Fault β)) : (p.after xs).andThen next = (p.andThen next).after xs := by
  obtain ⟨value, rest, notes⟩ := p
  cases value <;> simp [andThen, after]

/-- Changing the value before going on is changing what goes on. -/
theorem andThen_map (f : α → β) (p : Parsed (Except Fault α)) (next : β → List Token → Parsed (Except Fault γ)) :
    (p.map (Except.map f)).andThen next = p.andThen fun a => next (f a) := by
  obtain ⟨value, rest, notes⟩ := p
  cases value <;> rfl

end Parsed

/-! ## Looking at the next token -/

def nextIsMark (tokens : List Token) (mark : String) : Bool := tokens.head?.any (·.isMark mark)

def nextIsNamed (tokens : List Token) (name : String) : Bool := tokens.head?.any (·.isNamed name)

/-! ## Steps over single tokens -/

/-- Take the next token if its text is `wanted`. Otherwise it stays, and the problem is recorded. A literal never
matches, so a quoted brace closes no block. -/
def expect (wanted : String) : List Token → Parsed (Option Token)
  | [] => ⟨none, [], [.about (.expected wanted none) none]⟩
  | t :: ts =>
    if t.text = wanted ∧ t.kind ≠ .literal then ⟨some t, ts, []⟩
    else ⟨none, t :: ts, [.about (.expected wanted (some t.text)) (some t)]⟩

def skipComma (tokens : List Token) : List Token := if nextIsMark tokens "," then tokens.tail else tokens

/-- A token that is expected is taken, and nothing is recorded. -/
theorem expect_of_text {wanted : String} {t : Token} (htext : t.text = wanted) (hkind : t.kind ≠ .literal)
    (ts : List Token) : expect wanted (t :: ts) = ⟨some t, ts, []⟩ := if_pos ⟨htext, hkind⟩

theorem expect_of_isMark {mark : String} {t : Token} (h : t.isMark mark = true) (ts : List Token) :
    expect mark (t :: ts) = ⟨some t, ts, []⟩ := by
  obtain ⟨hkind, htext⟩ := Token.isMark_iff.1 h
  exact expect_of_text htext (by simp [hkind]) ts

theorem expect_of_isNamed {name : String} {t : Token} (h : t.isNamed name = true) (ts : List Token) :
    expect name (t :: ts) = ⟨some t, ts, []⟩ := by
  obtain ⟨hkind, htext⟩ := Token.isNamed_iff.1 h
  exact expect_of_text htext (by simp [hkind]) ts

theorem skipComma_of_isMark {t : Token} (h : t.isMark "," = true) (ts : List Token) : skipComma (t :: ts) = ts :=
  if_pos h

/-- At most the expected token is taken. -/
theorem expect_suffix (wanted : String) (tokens : List Token) : (expect wanted tokens).rest <:+ tokens := by
  unfold expect
  split
  · exact List.suffix_refl _
  · split
    · exact List.suffix_cons ..
    · exact List.suffix_refl _

theorem skipComma_suffix (tokens : List Token) : skipComma tokens <:+ tokens := by
  unfold skipComma
  split
  · exact List.tail_suffix _
  · exact List.suffix_refl _

end NestedStyles
