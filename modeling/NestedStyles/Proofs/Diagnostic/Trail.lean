import NestedStyles.Document
import NestedStyles.Proofs.Preliminaries

/-!
# The trail of diagnostics

Reading goes through the tokens once, from the left to the right. What is missing is reported at the token that stands
in its place, so these reports follow the tokens; a remark about a color names a token that has been passed already.

- `Missing`: what can be reported as missing, and where.
- `Color.Remark`: what can be remarked about a color.
- `Trail`: the diagnostics that are recorded between two places in the tokens.
- `Color.call_trail`, `Value.read_trail`, `Declaration.readFunction_trail`, `Entry.read_trail`, `Nesting.run_trail`,
  `Document.read_trail`: all readers leave such a trail.
-/

namespace NestedStyles

/-- What a document can lack: a bracket or an equals sign anywhere, a closing brace or `end` only at the end. -/
inductive Missing : String → List Token → Prop
  | anywhere {wanted : String} {rest : List Token} (h : wanted ∈ ["]", "=", "(", ")"]) : Missing wanted rest
  | atEnd {wanted : String} (h : wanted ∈ ["\x7d", "end"]) : Missing wanted []

/-- What there is to remark about a color. -/
inductive Color.Remark : Problem → Prop
  | unknown (name : String) : Remark (.unknownColor name)
  | few (name : String) (wanted given : Nat) : Remark (.fewComponents name wanted given)

theorem Color.Remark.kind_eq {problem : Problem} (h : Remark problem) : problem.kind = .semantic := by
  cases h <;> rfl

/-- The diagnostics recorded on the way from the tokens `start` to those that are left: each is about what is missing
at a place on the way, or a remark about one of all `tokens`. -/
inductive Trail (tokens : List Token) : List Token → List Diagnostic → List Token → Prop
  | quiet {start rest : List Token} (hrest : rest <:+ start) : Trail tokens start [] rest
  | missing {start here rest : List Token} {wanted : String} {notes : List Diagnostic} (hhere : here <:+ start)
      (hmissing : Missing wanted here) (hnotes : Trail tokens here notes rest) :
      Trail tokens start (.about (.expected wanted (here.head?.map Token.text)) here.head? :: notes) rest
  | remark {start rest : List Token} {problem : Problem} {about : Option Token} {notes : List Diagnostic}
      (hremark : Color.Remark problem) (habout : ∀ t ∈ about, t ∈ tokens) (hnotes : Trail tokens start notes rest) :
      Trail tokens start (.about problem about :: notes) rest

namespace Trail

variable {tokens start here rest : List Token} {notes more : List Diagnostic}

theorem suffix (h : Trail tokens start notes rest) : rest <:+ start := by
  induction h with
  | quiet hrest => exact hrest
  | missing hhere _ _ ih => exact ih.trans hhere
  | remark _ _ _ ih => exact ih

/-- A way may begin earlier. -/
theorem from_suffix (h : Trail tokens here notes rest) (hhere : here <:+ start) : Trail tokens start notes rest := by
  induction h with
  | quiet hrest => exact .quiet (hrest.trans hhere)
  | missing hhere' hmissing hnotes _ => exact .missing (hhere'.trans hhere) hmissing hnotes
  | remark hremark habout _ ih => exact .remark hremark habout (ih hhere)

theorem append (h : Trail tokens start notes here) (h' : Trail tokens here more rest) :
    Trail tokens start (notes ++ more) rest := by
  induction h with
  | quiet hrest => exact h'.from_suffix hrest
  | missing hhere hmissing _ ih => exact .missing hhere hmissing (ih h')
  | remark hremark habout _ ih => exact .remark hremark habout (ih h')

/-- A way may go on without a diagnostic. -/
theorem to_suffix (h : Trail tokens start notes here) (hrest : rest <:+ here) : Trail tokens start notes rest := by
  simpa using h.append (.quiet hrest)

theorem remarks {problems : List Problem} {about : Option Token} (hremark : ∀ p ∈ problems, Color.Remark p)
    (habout : ∀ t ∈ about, t ∈ tokens) : Trail tokens start (problems.map (Diagnostic.about · about)) start := by
  induction problems with
  | nil => exact .quiet (List.suffix_refl _)
  | cons p problems ih =>
    refine .remark (hremark p List.mem_cons_self) habout (ih fun q hq => ?_)
    exact hremark q (List.mem_cons_of_mem p hq)

/-- A diagnostic of a trail is about what is missing at a place on the way, or a remark. -/
theorem missing_or_remark (h : Trail tokens start notes rest) {d : Diagnostic} (hd : d ∈ notes) :
    (∃ wanted here, here <:+ start ∧ Missing wanted here ∧
      d = .about (.expected wanted (here.head?.map Token.text)) here.head?) ∨
    ∃ problem about, Color.Remark problem ∧ (∀ t ∈ about, t ∈ tokens) ∧ d = .about problem about := by
  induction h with
  | quiet => cases hd
  | missing hhere hmissing _ ih =>
    rcases List.mem_cons.1 hd with rfl | hd
    · exact .inl ⟨_, _, hhere, hmissing, rfl⟩
    rcases ih hd with ⟨wanted, there, hthere, hlater⟩ | hremark
    · exact .inl ⟨wanted, there, hthere.trans hhere, hlater⟩
    · exact .inr hremark
  | remark hremark habout _ ih =>
    rcases List.mem_cons.1 hd with rfl | hd
    · exact .inr ⟨_, _, hremark, habout, rfl⟩
    · exact ih hd

end Trail

variable {tokens start : List Token} {α β : Type}

/-! ## Steps over single tokens -/

theorem expect_trail {wanted : String} {here : List Token}
    (hmissing : (expect wanted here).value = none → Missing wanted here) :
    Trail tokens here (expect wanted here).notes (expect wanted here).rest := by
  cases here with
  | nil => exact .missing (List.suffix_refl _) (hmissing rfl) (.quiet (List.suffix_refl _))
  | cons t ts =>
    rw [expect] at hmissing ⊢
    split
    · exact .quiet (List.suffix_cons t ts)
    · next hother =>
      rw [if_neg hother] at hmissing
      exact .missing (List.suffix_refl _) (hmissing rfl) (.quiet (List.suffix_refl _))

theorem expect_trail_of_mem {wanted : String} (h : wanted ∈ ["]", "=", "(", ")"]) (here : List Token) :
    Trail tokens here (expect wanted here).notes (expect wanted here).rest := expect_trail fun _ => .anywhere h

/-- What is certain to come next is not reported. -/
theorem expect_trail_of_isMark {mark : String} {here : List Token} (h : nextIsMark here mark = true) :
    Trail tokens here (expect mark here).notes (expect mark here).rest := by
  refine expect_trail fun hnone => ?_
  cases here with
  | nil => cases h
  | cons t ts => rw [expect_of_isMark h] at hnone; cases hnone

theorem expect_trail_of_isNamed {name : String} {here : List Token} (h : nextIsNamed here name = true) :
    Trail tokens here (expect name here).notes (expect name here).rest := by
  refine expect_trail fun hnone => ?_
  cases here with
  | nil => cases h
  | cons t ts => rw [expect_of_isNamed h] at hnone; cases hnone

theorem Parsed.andThen_trail {p : Parsed (Except Fault α)} {next : α → List Token → Parsed (Except Fault β)}
    (hp : Trail tokens start p.notes p.rest)
    (hnext : ∀ a, p.value = .ok a → Trail tokens p.rest (next a p.rest).notes (next a p.rest).rest) :
    Trail tokens start (p.andThen next).notes (p.andThen next).rest := by
  cases hvalue : p.value with
  | error fault => simpa [andThen, hvalue] using hp
  | ok a =>
    rw [andThen_of_ok hvalue]
    exact hp.append (hnext a hvalue)

theorem bracketedSelector_trail (here : List Token) :
    Trail tokens here (bracketedSelector here).notes (bracketedSelector here).rest := by
  have hbracket : ∀ ts : List Token, Trail tokens ts (expect "]" ts).notes (expect "]" ts).rest :=
    expect_trail_of_mem (by decide)
  unfold bracketedSelector
  split
  · exact hbracket []
  · next t ts =>
    split
    · exact (hbracket ts).from_suffix (List.suffix_cons t ts)
    · exact hbracket (t :: ts)

/-! ## Colors and values -/

theorem Color.remark_of_mem_build {name : String} {arguments : List String} :
    ∀ p ∈ (build name arguments).2, Remark p := by
  intro p hp
  unfold build at hp
  split at hp
  · rw [List.mem_singleton.1 hp]
    exact .unknown name
  · dsimp only at hp
    split at hp
    · rw [List.mem_singleton.1 hp]
      exact .few name _ _
    · cases hp

/-- A call: what is missing in it, and then remarks about its name. -/
theorem Color.call_trail {t : Token} {ts : List Token} (hts : ts <:+ tokens) (hdot : nextIsMark ts "." = true) :
    Trail tokens (t :: ts) (call (t :: ts)).notes (call (t :: ts)).rest := by
  have hopened : Trail tokens _ _ (expect "(" (expect "." ts).rest.tail).rest :=
    ((expect_trail_of_isMark hdot).to_suffix (List.tail_suffix _)).append (expect_trail_of_mem (by decide) _)
  have hinside := hopened.to_suffix (List.dropWhile_suffix fun t => !t.isMark ")")
  have hclosed : Trail tokens _ _ (expect ")" _).rest := hinside.append (expect_trail_of_mem (by decide) _)
  have hname : ∀ u ∈ (expect "." ts).rest.head?, u ∈ tokens := fun u hu =>
    ((expect_suffix "." ts).trans hts).subset (List.mem_of_head? hu)
  exact (hclosed.append (.remarks remark_of_mem_build hname)).from_suffix (List.suffix_cons t ts)

theorem Value.gather_notes (depth : Depth) (previous : Option Token) (text : String) (here : List Token) :
    (gather depth previous text here).notes = [] := by
  induction here generalizing depth previous text with
  | nil => rfl
  | cons t ts ih =>
    unfold gather
    split
    · rfl
    · exact ih ..

theorem Value.read_trail {here : List Token} (hhere : here <:+ tokens) :
    Trail tokens here (read here).notes (read here).rest := by
  unfold read
  split
  · exact .quiet (List.suffix_refl _)
  · next t ts =>
    split
    · next hcolor =>
      exact Color.call_trail ((List.suffix_cons t ts).trans hhere) (Bool.and_eq_true_iff.1 hcolor).2
    split
    · exact .quiet (List.suffix_refl _)
    · rw [Parsed.map_notes, gather_notes]
      exact .quiet (gather_suffix ..)

/-! ## Function literals -/

namespace Declaration

/-- Declarations are read up to `end` or the end of the input. -/
theorem readAll_rest (here : List Token) (declarations : List Declaration)
    (h : (readAll here).value = .ok declarations) :
    (readAll here).rest = [] ∨ nextIsNamed (readAll here).rest "end" = true := by
  fun_induction readAll here generalizing declarations with
  | case1 => exact .inl rfl
  | case2 t ts hend => exact .inr hend
  | case3 t ts _ _ ih => exact ih declarations h
  | case4 t ts _ _ _ ih => exact ih declarations h
  | case5 => cases h
  | case6 t ts _ _ _ v _ _ more ih =>
    obtain ⟨ds, hmore, -⟩ := map_eq_ok_iff.1 h
    exact ih ds hmore

theorem readAll_trail {here : List Token} (hhere : here <:+ tokens) :
    Trail tokens here (readAll here).notes (readAll here).rest := by
  match here with
  | [] =>
    rw [readAll]
    exact .quiet (List.suffix_refl _)
  | t :: ts =>
    have hts := List.suffix_cons t ts
    have hcomma := skipComma_suffix ts
    have htail := (List.tail_suffix ts).trans hts
    have hvalue := (skipComma_suffix _).trans (Value.read_suffix ts.tail)
    have hcomma_le := hcomma.length_le
    have hvalue_le := (hvalue.trans (List.tail_suffix ts)).length_le
    rw [readAll_cons]
    split
    · exact .quiet (List.suffix_refl _)
    split
    · exact (readAll_trail (hts.trans hhere)).from_suffix hts
    split
    · exact (readAll_trail (hcomma.trans (hts.trans hhere))).from_suffix (hcomma.trans hts)
    · refine Parsed.andThen_trail ((Value.read_trail (htail.trans hhere)).from_suffix htail) fun value _ => ?_
      exact (readAll_trail (hvalue.trans (htail.trans hhere))).from_suffix (skipComma_suffix _)
termination_by here.length
decreasing_by all_goals simp only [List.length_cons]; omega

theorem readFunction_trail {here : List Token} (hhere : here <:+ tokens)
    (hfunction : nextIsNamed here "function" = true) :
    Trail tokens here (readFunction here).notes (readFunction here).rest := by
  have hopened : Trail tokens here _ (expect "(" (expect "function" here).rest).rest :=
    (expect_trail_of_isNamed hfunction).append (expect_trail_of_mem (by decide) _)
  have hclosed : Trail tokens here _ (expect ")" _).rest := hopened.append (expect_trail_of_mem (by decide) _)
  refine hclosed.append (Parsed.andThen_trail (readAll_trail (hclosed.suffix.trans hhere)) fun declarations hok => ?_)
  rcases readAll_rest _ _ hok with hnil | hend
  · exact expect_trail fun _ => hnil ▸ .atEnd (by decide)
  · exact expect_trail_of_isNamed hend

end Declaration

/-! ## Entries and blocks -/

theorem Entry.read_trail (parent : String) (t : Token) {ts : List Token} (hts : ts <:+ tokens) :
    Trail tokens ts (read parent t ts).notes (read parent t ts).rest := by
  have htail := List.tail_suffix ts
  have hequals : Trail tokens ts _ (expect "=" _).rest :=
    (bracketedSelector_trail ts).append (expect_trail_of_mem (by decide) _)
  apply read_cases (motive := fun p => Trail tokens ts p.notes p.rest)
  case bracketed => exact fun _ _ => hequals
  case unopened => exact fun _ _ => hequals.to_suffix (skipComma_suffix _)
  case skipped => exact fun _ => .quiet (List.suffix_refl _)
  case lone => exact fun _ _ => .quiet (skipComma_suffix ts)
  case function =>
    intro _ _ _ hword
    have hfunction := Declaration.readFunction_trail (htail.trans hts) hword
    exact Parsed.andThen_trail (hfunction.from_suffix htail) fun _ _ => .quiet (skipComma_suffix _)
  case block => exact fun _ _ _ => .quiet htail
  case pair =>
    intro _ _ _
    have hvalue := Value.read_trail (htail.trans hts)
    exact Parsed.andThen_trail (hvalue.from_suffix htail) fun _ _ => .quiet (skipComma_suffix _)

/-- A nested block is announced only by its brace. -/
theorem Entry.nextIsMark_of_opening {parent selector : String} {t : Token} {ts : List Token} :
    (read parent t ts).value = .ok (.opening selector) → nextIsMark (read parent t ts).rest "\x7b" = true := by
  apply read_cases (motive := fun p => p.value = .ok (.opening selector) → nextIsMark p.rest "\x7b" = true)
  case bracketed => exact fun _ hbrace _ => hbrace
  case unopened => rintro _ _ ⟨⟩
  case skipped => rintro _ ⟨⟩
  case lone => rintro _ _ ⟨⟩
  case function =>
    intro _ _ _ _ h
    obtain ⟨declarations, -, ⟨⟩⟩ := Parsed.exists_of_andThen h
  case block => exact fun _ _ hbrace _ => hbrace
  case pair =>
    intro _ _ _ h
    obtain ⟨value, -, hvalue⟩ := Parsed.exists_of_andThen h
    cases hpair : Declaration.ofPair? t.text value <;> simp [hpair] at hvalue

namespace Nesting

variable {s : Nesting}

/-- A round extends the trail, since a brace is expected only where it stands or at the end of the input. -/
theorem step_trail (hstart : start <:+ tokens) (h : Trail tokens start s.notes.toList s.rest) :
    s.step.Satisfies (fun s => Trail tokens start s.notes.toList s.rest)
      fun outcome => Trail tokens start outcome.notes outcome.rest := by
  have hclose : s.rest = [] ∨ nextIsMark s.rest "\x7d" = true →
      Trail tokens start (s.notes.toList ++ (expect "\x7d" s.rest).notes) (expect "\x7d" s.rest).rest := by
    rintro (hnil | hmark)
    · exact h.append (expect_trail fun _ => hnil ▸ .atEnd (by decide))
    · exact h.append (expect_trail_of_isMark hmark)
  have hentry : ∀ t ts item, s.rest = t :: ts → Entry.read s.top.selector t ts = item →
      Trail tokens start (s.notes.toList ++ item.notes) item.rest := by
    rintro t ts _ hrest rfl
    have hts : ts <:+ s.rest := hrest ▸ List.suffix_cons t ts
    exact h.append ((Entry.read_trail s.top.selector t (hts.trans (h.suffix.trans hstart))).from_suffix hts)
  apply step_cases
  case ends =>
    intro hend _
    simpa [Round.Satisfies] using hclose hend
  case closes =>
    intro hend f fs _
    simpa [Round.Satisfies] using (hclose hend).to_suffix (skipComma_suffix _)
  case fails =>
    intro t ts item fault hrest hitem _
    simpa [Round.Satisfies] using hentry t ts item hrest hitem
  case opens =>
    rintro t ts _ selector hrest rfl hvalue
    have hopened := (hentry t ts _ hrest rfl).append (expect_trail_of_isMark (Entry.nextIsMark_of_opening hvalue))
    simpa [Round.Satisfies] using hopened
  case adds =>
    intro t ts item e hrest hitem _ _
    simpa [Round.Satisfies] using hentry t ts item hrest hitem

/-- **A run extends the trail** of the state it begins with. -/
theorem run_trail (hstart : start <:+ tokens) (h : Trail tokens start s.notes.toList s.rest) :
    Trail tokens start s.run.notes s.run.rest :=
  run_invariant (fun _ _ => step_trail hstart) (List.suffix_refl s.rest) h

end Nesting

theorem Block.read_trail (selector : String) {here : List Token} (hhere : here <:+ tokens)
    (hbrace : nextIsMark here "\x7b" = true) :
    Trail tokens here (read selector here).notes (read selector here).rest :=
  Nesting.run_trail hhere (by simpa using expect_trail_of_isMark hbrace)

/-! ## Documents -/

theorem Document.selector?_trail {t : Token} {ts : List Token} {s : Parsed String} (h : selector? t ts = some s) :
    Trail tokens ts s.notes s.rest := by
  unfold selector? at h
  split at h
  · cases h
    exact .quiet (List.suffix_refl _)
  split at h
  · cases h
    exact bracketedSelector_trail ts
  · cases h

/-- **A document leaves a trail** through all of its tokens. -/
theorem Document.read_trail {here : List Token} (hhere : here <:+ tokens) :
    Trail tokens here (read here).notes (read here).rest := by
  match here with
  | [] =>
    rw [read]
    exact .quiet (List.suffix_refl _)
  | t :: ts =>
    have hts := List.suffix_cons t ts
    cases hs : selector? t ts with
    | none =>
      rw [read_of_none hs]
      exact (read_trail (hts.trans hhere)).from_suffix hts
    | some s =>
      have hselector : Trail tokens (t :: ts) s.notes s.rest := (selector?_trail hs).from_suffix hts
      have hrest := hselector.suffix.trans hhere
      have htail := List.tail_suffix s.rest
      have hblock := Block.read_suffix s.value s.rest.tail
      have hrest_le := (selector?_suffix hs).length_le
      have htail_le := htail.length_le
      have hblock_le := hblock.length_le
      rw [read_of_some hs]
      split
      · exact hselector.append (read_trail hrest)
      split
      · exact hselector.append ((read_trail (htail.trans hrest)).from_suffix htail)
      · next hbrace =>
        have hopen := (Block.read_trail s.value (htail.trans hrest) (by simpa using hbrace)).from_suffix htail
        refine hselector.append (Parsed.andThen_trail hopen fun b _ => ?_)
        exact read_trail (hblock.trans (htail.trans hrest))
termination_by here.length
decreasing_by all_goals simp only [List.length_cons]; omega

end NestedStyles
