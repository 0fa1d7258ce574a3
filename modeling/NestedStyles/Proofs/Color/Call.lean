import NestedStyles.Stream
import NestedStyles.Proofs.Color.Notation
import NestedStyles.Proofs.Value.Spacing

/-!
# Color calls

A call is a word, a point, a name, an opening parenthesis, arguments and a closing parenthesis. Each of the marks may
be missing, and the input may end anywhere. Here the parts of a call are described by themselves, as a division of the
tokens, and reading a call is shown to find them: what it takes, what it reports and the color it gives follow from
the division.

- `Color.Parts.Divides`, `Color.Parts.exists_divides`: the parts of a call.
- `Color.Parts.Divides.call_eq`: reading a call finds its parts.
- `Stream.perform_color_parts`: a stream that is asked for a color.
-/

namespace NestedStyles

namespace Color

/-- The parts of a call in their order, and the tokens behind it. A part that is missing is absent. -/
structure Parts where
  word : Option Token
  dot : Option Token
  name : Option Token
  opening : Option Token
  inside : List Token
  closing : Option Token
  rest : List Token

/-- A mark that may be missing: it is absent only if it does not come next. -/
def IsPart (mark : String) (part : Option Token) (behind : List Token) : Prop :=
  match part with
  | some t => t.isMark mark = true
  | none => nextIsMark behind mark = false

instance (mark : String) (part : Option Token) (behind : List Token) : Decidable (IsPart mark part behind) :=
  match part with
  | some t => inferInstanceAs (Decidable (t.isMark mark = true))
  | none => inferInstanceAs (Decidable (nextIsMark behind mark = false))

/-- What is reported at the next token if a mark is missing before it. -/
def lack (mark : String) (part : Option Token) (behind : List Token) : List Diagnostic :=
  match part with
  | some _ => []
  | none => [.about (.expected mark (behind.head?.map Token.text)) behind.head?]

namespace Parts

variable (p : Parts)

def fromInside : List Token := p.inside ++ (p.closing.toList ++ p.rest)

def fromOpening : List Token := p.opening.toList ++ p.fromInside

def fromName : List Token := p.name.toList ++ p.fromOpening

def fromDot : List Token := p.dot.toList ++ p.fromName

/-- The tokens that belong to the call. -/
def taken : List Token :=
  p.word.toList ++ (p.dot.toList ++ (p.name.toList ++ (p.opening.toList ++ (p.inside ++ p.closing.toList))))

/-- How the tokens divide into the parts: one token, a point if it is next, one token as the name, an opening
parenthesis if it is next, and then all up to the first closing one, or up to the end if there is none. -/
structure Divides (tokens : List Token) : Prop where
  whole : p.taken ++ p.rest = tokens
  word : p.word = none → tokens = []
  dot : IsPart "." p.dot p.fromName
  name : p.name = none → p.fromOpening = []
  opening : IsPart "(" p.opening p.fromInside
  inside : ∀ t ∈ p.inside, t.isMark ")" = false
  closing : ∀ t ∈ p.closing, t.isMark ")" = true
  unclosed : p.closing = none → p.rest = []

/-- The name; there is none at the end of the input. -/
def nameText : String := (p.name.map Token.text).getD ""

/-- The texts between the parentheses, without the commas: numbers in their shortest form, all else as it is. -/
def arguments : List String :=
  p.inside.filterMap fun t =>
    if t.isMark "," then none else some (if t.kind = .number then Double.normalize t.text else t.text)

/-- One report for each of the three marks that is missing. -/
def lacks : List Diagnostic :=
  lack "." p.dot p.fromName ++ lack "(" p.opening p.fromInside ++ lack ")" p.closing p.rest

/-- What there is to remark about the color, at the name. -/
def remarks : List Diagnostic := (Color.remarks p.nameText p.arguments.length).map (Diagnostic.about · p.name)

variable {p}

theorem arguments_eq : p.arguments = Color.arguments p.inside := by
  rw [arguments, Color.arguments, ← List.filterMap_eq_map, List.filterMap_filter]
  refine congrArg (List.filterMap · p.inside) (funext fun t => ?_)
  cases t.isMark "," <;> rfl

theorem isSyntactic_lacks : ∀ d ∈ p.lacks, d.isSyntactic = true := by
  have hlack : ∀ mark part behind, ∀ d ∈ lack mark part behind, d.isSyntactic = true := by
    intro mark part behind d hd
    cases part with
    | some t => cases hd
    | none =>
      rw [List.mem_singleton.1 hd]
      cases behind.head? <;> rfl
  intro d hd
  rcases List.mem_append.1 hd with hd | hd
  · rcases List.mem_append.1 hd with hd | hd
    · exact hlack _ _ _ d hd
    · exact hlack _ _ _ d hd
  · exact hlack _ _ _ d hd

theorem isSemantic_remarks : ∀ d ∈ p.remarks, d.isSemantic = true := by
  intro d hd
  obtain ⟨problem, hproblem, rfl⟩ := List.mem_map.1 hd
  have hkind : problem.kind = .semantic := by
    unfold Color.remarks at hproblem
    split at hproblem
    · rw [List.mem_singleton.1 hproblem]; rfl
    split at hproblem
    · rw [List.mem_singleton.1 hproblem]; rfl
    split at hproblem
    · rw [List.mem_singleton.1 hproblem]; rfl
    · cases hproblem
  cases p.name <;> simp [Diagnostic.isSemantic, Diagnostic.kind, Diagnostic.about, hkind]

/-! ## Every list of tokens divides -/

theorem exists_isPart (mark : String) (tokens : List Token) :
    ∃ part behind, part.toList ++ behind = tokens ∧ IsPart mark part behind := by
  cases hnext : nextIsMark tokens mark with
  | false => exact ⟨none, tokens, rfl, hnext⟩
  | true =>
    cases tokens with
    | nil => cases hnext
    | cons t ts => exact ⟨some t, ts, rfl, hnext⟩

/-- One token if there is one. -/
theorem exists_next (tokens : List Token) :
    ∃ (part : Option Token) (behind : List Token), part.toList ++ behind = tokens ∧ (part = none → behind = []) := by
  cases tokens with
  | nil => exact ⟨none, [], rfl, fun _ => rfl⟩
  | cons t ts => exact ⟨some t, ts, rfl, nofun⟩

/-- Up to the first closing parenthesis, or up to the end. -/
theorem exists_inside (tokens : List Token) :
    ∃ (inside : List Token) (closing : Option Token) (rest : List Token),
      inside ++ (closing.toList ++ rest) = tokens ∧ (∀ t ∈ inside, t.isMark ")" = false) ∧
        (∀ t ∈ closing, t.isMark ")" = true) ∧ (closing = none → rest = []) := by
  induction tokens with
  | nil => exact ⟨[], none, [], rfl, nofun, nofun, fun _ => rfl⟩
  | cons t ts ih =>
    cases hmark : t.isMark ")" with
    | true =>
      refine ⟨[], some t, ts, rfl, nofun, ?_, nofun⟩
      rintro u ⟨⟩
      exact hmark
    | false =>
      obtain ⟨inside, closing, rest, rfl, hinside, hclosing, hunclosed⟩ := ih
      refine ⟨t :: inside, closing, rest, rfl, ?_, hclosing, hunclosed⟩
      intro u hu
      rcases List.mem_cons.1 hu with rfl | hu
      · exact hmark
      · exact hinside u hu

theorem exists_divides (tokens : List Token) : ∃ p : Parts, p.Divides tokens := by
  obtain ⟨word, fromDot, rfl, hempty⟩ := exists_next tokens
  obtain ⟨dot, fromName, rfl, hdot⟩ := exists_isPart "." fromDot
  obtain ⟨name, fromOpening, rfl, hname⟩ := exists_next fromName
  obtain ⟨opening, fromInside, rfl, hopening⟩ := exists_isPart "(" fromOpening
  obtain ⟨inside, closing, rest, rfl, hinside, hclosing, hunclosed⟩ := exists_inside fromInside
  refine ⟨⟨word, dot, name, opening, inside, closing, rest⟩, ?_, ?_, hdot, hname, hopening, hinside, hclosing,
    hunclosed⟩
  · simp only [taken, List.append_assoc]
  · intro habsent
    have hword : word = none := habsent
    rw [hword, Option.toList_none, List.nil_append]
    exact hempty hword

/-! ## Reading finds the parts -/

/-- A mark is found where it is next, and reported where it is not: no other token of a source has its text. -/
theorem expect_eq {mark : String} (hmark : mark.toList.any Lexeme.isNameChar = false) {part : Option Token}
    {behind : List Token} (hpart : IsPart mark part behind) (hlexed : ∀ t ∈ behind, t.Lexed) :
    expect mark (part.toList ++ behind) = ⟨part, behind, lack mark part behind⟩ := by
  cases part with
  | some t => exact expect_of_isMark hpart behind
  | none =>
    cases behind with
    | nil => rfl
    | cons t ts =>
      have hother : ¬(t.text = mark ∧ t.kind ≠ .literal) := by
        rintro ⟨htext, hkind⟩
        have hfound := (hlexed t List.mem_cons_self).isMark_of_text hmark hkind htext
        have hnext : t.isMark mark = false := hpart
        rw [hfound] at hnext
        cases hnext
      exact if_neg hother

variable {tokens : List Token}

theorem Divides.eq_append (h : p.Divides tokens) : tokens = p.word.toList ++ p.fromDot := by
  rw [← h.whole]
  simp only [taken, fromDot, fromName, fromOpening, fromInside, List.append_assoc]

theorem Divides.tail_eq (h : p.Divides tokens) : tokens.tail = p.fromDot := by
  cases hword : p.word with
  | some t => rw [h.eq_append, hword]; rfl
  | none =>
    have hnil := h.eq_append
    rw [h.word hword, hword] at hnil
    rw [h.word hword]
    exact hnil

theorem Divides.inside_eq (h : p.Divides tokens) :
    (p.fromInside.takeWhile fun t => !t.isMark ")") = p.inside ∧
      (p.fromInside.dropWhile fun t => !t.isMark ")") = p.closing.toList ++ p.rest := by
  have hall : ∀ t ∈ p.inside, (!t.isMark ")") = true := fun t ht => by rw [h.inside t ht]; rfl
  rw [fromInside, List.takeWhile_append_of_pos hall, List.dropWhile_append_of_pos hall]
  cases hclosing : p.closing with
  | none =>
    rw [h.unclosed hclosing]
    exact ⟨List.append_nil _, rfl⟩
  | some t =>
    have hmark : (!t.isMark ")") = false := by rw [h.closing t hclosing]; rfl
    simp [hmark]

theorem Divides.isPart_closing (h : p.Divides tokens) : IsPart ")" p.closing p.rest := by
  cases hclosing : p.closing with
  | none =>
    rw [h.unclosed hclosing]
    rfl
  | some t => exact h.closing t hclosing

/-- The name is the next token behind the point. -/
theorem Divides.fromName_eq (h : p.Divides tokens) : p.fromName.head? = p.name ∧ p.fromName.tail = p.fromOpening := by
  rw [fromName]
  cases hname : p.name with
  | none =>
    rw [h.name hname]
    exact ⟨rfl, rfl⟩
  | some t => exact ⟨rfl, rfl⟩

/-- **Reading a call finds its parts.** -/
theorem Divides.call_eq (h : p.Divides tokens) (hlexed : ∀ t ∈ tokens, t.Lexed) :
    call tokens = ⟨(build p.nameText p.arguments).1, p.rest, p.lacks ++ p.remarks⟩ := by
  have hfromDot : p.fromDot <:+ tokens := h.tail_eq ▸ List.tail_suffix tokens
  have hfromName : p.fromName <:+ tokens := (List.suffix_append ..).trans hfromDot
  have hfromInside : p.fromInside <:+ tokens :=
    (List.suffix_append ..).trans ((List.suffix_append p.name.toList p.fromOpening).trans hfromName)
  have hrest : p.rest <:+ tokens :=
    (List.suffix_append ..).trans ((List.suffix_append p.inside _).trans hfromInside)
  have hdot : expect "." p.fromDot = ⟨p.dot, p.fromName, lack "." p.dot p.fromName⟩ :=
    expect_eq (by decide) h.dot fun t ht => hlexed t (hfromName.subset ht)
  have hopening : expect "(" p.fromOpening = ⟨p.opening, p.fromInside, lack "(" p.opening p.fromInside⟩ :=
    expect_eq (by decide) h.opening fun t ht => hlexed t (hfromInside.subset ht)
  have hclosing : expect ")" (p.closing.toList ++ p.rest) = ⟨p.closing, p.rest, lack ")" p.closing p.rest⟩ :=
    expect_eq (by decide) h.isPart_closing fun t ht => hlexed t (hrest.subset ht)
  obtain ⟨hhead, htail⟩ := h.fromName_eq
  obtain ⟨htake, hdrop⟩ := h.inside_eq
  simp only [call, h.tail_eq, hdot, hhead, htail, hopening, htake, hdrop, hclosing, build_problems, ← arguments_eq,
    lacks, remarks, nameText, List.append_assoc]

end Parts

end Color

namespace Stream

/-- **The complete behaviour of a color call.** At any place of a source the tokens divide into the parts of a call. The
stream moves behind them, records what is missing and then what there is to remark, and replies with the notation of
the color; it does not reply with a text only if there is none. -/
theorem perform_color_parts {s : Stream} {source : String} (htokens : s.tokens = Token.significant source)
    (hs : s.position ≤ s.tokens.length) :
    (∃ p : Color.Parts, p.Divides s.rest) ∧
      ∀ p : Color.Parts, p.Divides s.rest →
        (s.perform .color).2 =
            { s with position := s.position + p.taken.length, notes := s.notes ++ p.lacks ++ p.remarks } ∧
          (∀ d ∈ p.lacks, d.isSyntactic = true) ∧ (∀ d ∈ p.remarks, d.isSemantic = true) ∧
          ∀ text, (s.perform .color).1 = .ok (.text text) ↔ Color.Denotes p.nameText p.arguments text := by
  refine ⟨Color.Parts.exists_divides _, fun p hp => ?_⟩
  have hcall := hp.call_eq (lexed_of_mem_rest htokens)
  refine ⟨?_, Color.Parts.isSyntactic_lacks, Color.Parts.isSemantic_remarks, fun text => ?_⟩
  · have hlength : p.taken.length + p.rest.length = s.tokens.length - s.position := by
      rw [← List.length_append, hp.whole, rest, List.length_drop]
    have hposition : s.tokens.length - p.rest.length = s.position + p.taken.length := by omega
    rw [perform, reading, hcall, advance, hposition, List.append_assoc]
  · rw [perform, reading, hcall, ← Color.build_eq_ok_iff]
    cases (Color.build p.nameText p.arguments).1 with
    | error fault =>
      constructor
      · intro h
        cases h
      · intro h
        cases h
    | ok color =>
      constructor
      · intro h
        cases h
        rfl
      · intro h
        cases h
        rfl

end Stream

namespace Sample

/-- A stream before a call without any of its marks, and with an argument too few. -/
def unmarked : Stream := { Stream.ofSource "ink color hsl 1.50em, 7" with position := 1 }

def unmarkedParts : Color.Parts where
  word := some ⟨.identifier, "color", "", ⟨1, 5⟩⟩
  dot := none
  name := some ⟨.identifier, "hsl", "", ⟨1, 11⟩⟩
  opening := none
  inside := [⟨.number, "1.50", "em", ⟨1, 15⟩⟩, ⟨.punctuation, ",", "", ⟨1, 21⟩⟩, ⟨.number, "7", "", ⟨1, 23⟩⟩]
  closing := none
  rest := []

theorem unmarkedParts_divides : unmarkedParts.Divides unmarked.rest where
  whole := by decide +kernel
  word := nofun
  dot := by decide +kernel
  name := nofun
  opening := by decide +kernel
  inside := by decide +kernel
  closing := nofun
  unclosed := fun _ => rfl

end Sample

theorem Stream.perform_color_parts_unmarked :
    Sample.unmarked.tokens = Token.significant "ink color hsl 1.50em, 7" ∧
      Sample.unmarked.position ≤ Sample.unmarked.tokens.length ∧ Sample.unmarkedParts.Divides Sample.unmarked.rest ∧
      (Sample.unmarked.perform .color).1 = .ok (.text "hsl(1.5, 7%, 0%)") ∧
      (Sample.unmarked.perform .color).2.position = 6 ∧
      (Sample.unmarked.perform .color).2.notes.map Diagnostic.text =
        ["syntax [line 1, col 11]: Expected '.' but got 'hsl'",
          "syntax [line 1, col 15]: Expected '(' but got '1.50'", "syntax: Expected ')' but got 'EOF'",
          "semantic [line 1, col 11]: color.hsl expects 3 arguments, got 2"] := by
  have hs : Sample.unmarked.position ≤ Sample.unmarked.tokens.length := by decide +kernel
  obtain ⟨-, hparts⟩ := perform_color_parts (rfl : Sample.unmarked.tokens = _) hs
  obtain ⟨hstate, -, -, htext⟩ := hparts Sample.unmarkedParts Sample.unmarkedParts_divides
  refine ⟨rfl, hs, Sample.unmarkedParts_divides, (htext _).2 ?_, ?_, ?_⟩
  · have harguments : Sample.unmarkedParts.arguments = ["1.5", "7"] := by decide +kernel
    have hnotation : "hsl(1.5, 7%, 0%)" = "hsl(" ++ "1.5" ++ ", " ++ "7" ++ "%, " ++ "0" ++ "%)" := by decide +kernel
    rw [harguments, hnotation]
    exact .hsl (by decide +kernel)
  · rw [hstate]
    decide +kernel
  · rw [hstate]
    decide +kernel

end NestedStyles
