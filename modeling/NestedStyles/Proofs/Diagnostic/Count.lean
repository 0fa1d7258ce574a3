import NestedStyles.Proofs.Color.Notation
import NestedStyles.Proofs.Diagnostic.Trail
import NestedStyles.Proofs.Termination
import NestedStyles.Proofs.Token.Seam

/-!
# How many diagnostics there are

A token that is taken pays for two diagnostics. This is enough for everything that can be missing: an opening bracket
in a block may lack two marks behind it, a block that is left open was opened by at least two tokens, and all other
readers take more tokens than they need. So a document has at most twice as many diagnostics as tokens, and a row of
opening brackets has almost as many.

- `Parsed.charge`: the diagnostics of a reader, and two for each token that it leaves.
- `Value.read_charge`, `Declaration.readAll_charge`, `Entry.read_charge`: readers that pay for their diagnostics.
- `Nesting.step_charge`, `Nesting.run_charge`: each open block keeps one diagnostic in reserve for its closing brace.
- `Document.read_charge`: documents.
- `Nesting.run_brackets`: a row of opening brackets in a block.
- `Document.read_notes_le`: the bound for sources, and how close it comes.
-/

namespace NestedStyles

namespace Parsed

variable {α β : Type}

/-- The diagnostics of a reader, and two more that each token it leaves may still pay for. -/
def charge (p : Parsed α) : Nat := p.notes.length + 2 * p.rest.length

theorem charge_map (f : α → β) (p : Parsed α) : (p.map f).charge = p.charge := rfl

theorem charge_after (notes : List Diagnostic) (p : Parsed α) : (p.after notes).charge = notes.length + p.charge := by
  simp only [charge, after_notes, after_rest, List.length_append]
  omega

/-- What goes on from the tokens that are left must be paid for by them. -/
theorem charge_andThen {p : Parsed (Except Fault α)} {next : α → List Token → Parsed (Except Fault β)} (extra : Nat)
    (hnext : ∀ a, (next a p.rest).charge ≤ 2 * p.rest.length + extra) : (p.andThen next).charge ≤ p.charge + extra := by
  cases hvalue : p.value with
  | error fault =>
    simp only [andThen, hvalue, charge]
    omega
  | ok a =>
    have ha := hnext a
    rw [andThen_of_ok hvalue, charge_after]
    simp only [charge] at ha ⊢
    omega

end Parsed

/-! ## Steps over single tokens -/

/-- Either there is a diagnostic, or a token is taken. -/
theorem expect_length (wanted : String) (tokens : List Token) :
    (expect wanted tokens).notes.length + tokens.length = (expect wanted tokens).rest.length + 1 := by
  unfold expect
  split
  · rfl
  · split
    · simp
    · simp only [List.length_cons, List.length_nil]
      omega

theorem expect_charge (wanted : String) (tokens : List Token) :
    (expect wanted tokens).charge ≤ 2 * tokens.length + 1 := by
  have hlength := expect_length wanted tokens
  have hsuffix := (expect_suffix wanted tokens).length_le
  simp only [Parsed.charge]
  omega

/-- A mark that is certain to come next pays for two diagnostics. -/
theorem expect_charge_of_isMark {mark : String} {tokens : List Token} (h : nextIsMark tokens mark = true) :
    (expect mark tokens).charge + 2 = 2 * tokens.length := by
  cases tokens with
  | nil => cases h
  | cons t ts =>
    rw [expect_of_isMark h]
    simp only [Parsed.charge, List.length_nil, List.length_cons]
    omega

theorem expect_charge_of_isNamed {name : String} {tokens : List Token} (h : nextIsNamed tokens name = true) :
    (expect name tokens).charge + 2 = 2 * tokens.length := by
  cases tokens with
  | nil => cases h
  | cons t ts =>
    rw [expect_of_isNamed h]
    simp only [Parsed.charge, List.length_nil, List.length_cons]
    omega

theorem bracketedSelector_charge (tokens : List Token) :
    (bracketedSelector tokens).charge ≤ 2 * tokens.length + 1 := by
  unfold bracketedSelector
  split
  · exact expect_charge "]" []
  · next t ts =>
    split
    · have hbracket := expect_charge "]" ts
      rw [Parsed.charge_map, List.length_cons]
      omega
    · exact expect_charge "]" (t :: ts)

/-! ## Values -/

theorem Color.length_build_le (name : String) (arguments : List String) : (build name arguments).2.length ≤ 1 := by
  rw [build_problems, remarks]
  split
  · exact Nat.le_refl 1
  split
  · exact Nat.le_refl 1
  split
  · exact Nat.le_refl 1
  · exact Nat.zero_le 1

/-- A color may lack both parentheses and have a remark about it. Its first two tokens pay for that. -/
theorem Color.call_charge {t : Token} {ts : List Token} (hdot : nextIsMark ts "." = true) :
    (call (t :: ts)).charge ≤ 2 * (t :: ts).length := by
  have hpoint := expect_charge_of_isMark hdot
  have hopened := expect_charge "(" (expect "." ts).rest.tail
  have hname := (List.tail_suffix (expect "." ts).rest).length_le
  have hclosed := expect_charge ")" ((expect "(" (expect "." ts).rest.tail).rest.dropWhile fun t => !t.isMark ")")
  have hinside : ∀ tokens : List Token, (tokens.dropWhile fun t => !t.isMark ")").length ≤ tokens.length :=
    fun _ => (List.dropWhile_suffix _).length_le
  have harguments := hinside (expect "(" (expect "." ts).rest.tail).rest
  have hremark := length_build_le (((expect "." ts).rest.head?.map Token.text).getD "")
    (arguments ((expect "(" (expect "." ts).rest.tail).rest.takeWhile fun t => !t.isMark ")"))
  simp only [call, Parsed.charge, List.tail_cons, List.length_append, List.length_map, List.length_cons]
    at hpoint hopened hclosed ⊢
  omega

theorem Value.read_charge (tokens : List Token) : (read tokens).charge ≤ 2 * tokens.length := by
  unfold read
  split
  · exact Nat.le_refl 0
  · next t ts =>
    split
    · next hcolor => exact Color.call_charge (Bool.and_eq_true_iff.1 hcolor).2
    split
    · simp only [Parsed.charge, List.length_nil]
      omega
    · have hsuffix := (gather_suffix {} none "" (t :: ts)).length_le
      rw [Parsed.charge_map, Parsed.charge, gather_notes, List.length_nil]
      omega

/-! ## Function literals -/

theorem skipComma_length_le (tokens : List Token) : (skipComma tokens).length ≤ tokens.length :=
  (skipComma_suffix tokens).length_le

theorem length_tail_of_nextIsMark {tokens : List Token} {mark : String} (h : nextIsMark tokens mark = true) :
    tokens.tail.length + 1 = tokens.length := by
  cases tokens with
  | nil => simp [nextIsMark] at h
  | cons t ts => rfl

namespace Declaration

theorem readAll_charge (tokens : List Token) : (readAll tokens).charge ≤ 2 * tokens.length := by
  match tokens with
  | [] =>
    rw [readAll]
    exact Nat.le_refl 0
  | t :: ts =>
    have hcomma := skipComma_length_le ts
    have hvalue := Value.read_charge ts.tail
    have hbehind := skipComma_length_le (Value.read ts.tail).rest
    have hvalue_le := ((Value.read_suffix ts.tail).trans (List.tail_suffix ts)).length_le
    rw [readAll_cons, List.length_cons]
    split
    · simp only [Parsed.charge, List.length_nil, List.length_cons]
      omega
    split
    · have ih := readAll_charge ts
      omega
    split
    · have ih := readAll_charge (skipComma ts)
      omega
    · next hequals =>
      have hmark : nextIsMark ts "=" = true := by simpa using hequals
      have htail := length_tail_of_nextIsMark hmark
      have ih := readAll_charge (skipComma (Value.read ts.tail).rest)
      refine Nat.le_trans (Parsed.charge_andThen 0 fun value => ?_) ?_
      · rw [Parsed.charge_map]
        omega
      · omega
termination_by tokens.length
decreasing_by all_goals simp only [List.length_cons]; omega

/-- A function literal may lack its parentheses and its end. Its first token pays for two of them. -/
theorem readFunction_charge {tokens : List Token} (hfunction : nextIsNamed tokens "function" = true) :
    (readFunction tokens).charge ≤ 2 * tokens.length + 1 := by
  have hhead := expect_charge_of_isNamed hfunction
  have hopened := expect_charge "(" (expect "function" tokens).rest
  have hclosed := expect_charge ")" (expect "(" (expect "function" tokens).rest).rest
  have hbody := readAll_charge (expect ")" (expect "(" (expect "function" tokens).rest).rest).rest
  have hend : ∀ p : Parsed (Except Fault (List Declaration)),
      (p.andThen fun declarations rest => (expect "end" rest).map fun _ => .ok declarations).charge ≤ p.charge + 1 :=
    fun p => Parsed.charge_andThen 1 fun _ => expect_charge "end" p.rest
  have hwhole := hend (readAll (expect ")" (expect "(" (expect "function" tokens).rest).rest).rest)
  rw [readFunction, Parsed.charge_after]
  simp only [Parsed.charge, List.length_append] at hhead hopened hclosed hbody hwhole ⊢
  omega

end Declaration

/-! ## Entries and blocks -/

/-- Behind a value or a function literal there is at most a comma, and nothing is reported. -/
theorem Parsed.charge_andThen_skipComma {α β : Type} (p : Parsed (Except Fault α)) (f : α → β) :
    (p.andThen fun a rest => ⟨.ok (f a), skipComma rest, []⟩).charge ≤ p.charge := by
  refine charge_andThen 0 fun a => ?_
  have hcomma := skipComma_length_le p.rest
  simp only [charge, List.length_nil]
  omega

/-- A bracketed selector may lack its closing bracket and the equals sign. The opening bracket pays for both. -/
theorem Entry.read_charge (parent : String) (t : Token) (ts : List Token) :
    (read parent t ts).charge ≤ 2 * (t :: ts).length := by
  rw [List.length_cons]
  have hfragment := bracketedSelector_charge ts
  have hequals := expect_charge "=" (bracketedSelector ts).rest
  simp only [Parsed.charge] at hfragment hequals
  apply read_cases (motive := fun p => p.charge ≤ 2 * (ts.length + 1))
  case bracketed =>
    intro _ _
    simp only [Parsed.charge, List.length_append]
    omega
  case unopened =>
    intro _ _
    have hcomma := skipComma_length_le (expect "=" (bracketedSelector ts).rest).rest
    simp only [Parsed.charge, List.length_append]
    omega
  case skipped =>
    intro _
    simp only [Parsed.charge, List.length_nil]
    omega
  case lone =>
    intro _ _
    have hcomma := skipComma_length_le ts
    simp only [Parsed.charge, List.length_nil]
    omega
  case function =>
    intro _ hmark _ hword
    have htail := length_tail_of_nextIsMark hmark
    have hfunction := Declaration.readFunction_charge hword
    have hle := (Declaration.readFunction ts.tail).charge_andThen_skipComma fun declarations =>
      Entry.nested ⟨Selector.pseudo parent t.text, declarations, []⟩
    omega
  case block =>
    intro _ hmark _
    have htail := length_tail_of_nextIsMark hmark
    simp only [Parsed.charge, List.length_nil]
    omega
  case pair =>
    intro _ hmark _
    have htail := length_tail_of_nextIsMark hmark
    have hvalue := Value.read_charge ts.tail
    have hle := (Value.read ts.tail).charge_andThen_skipComma fun value =>
      (Declaration.ofPair? t.text value).elim Entry.nothing Entry.declaration
    omega

namespace Nesting

/-- The diagnostics so far, two for each token that is left, and one for each open block, which may turn out to lack
its closing brace. -/
def charge (s : Nesting) : Nat := s.notes.size + 2 * s.rest.length + s.depth

variable {s : Nesting}

theorem size_append_list (notes : Array Diagnostic) (more : List Diagnostic) :
    (notes ++ more).size = notes.size + more.length := by
  rw [← Array.length_toList, Array.toList_appendList, List.length_append, Array.length_toList]

/-- **No round charges more** than there was before it. -/
theorem step_charge {n : Nat} (h : s.charge ≤ n) : s.step.Satisfies (·.charge ≤ n) (·.charge ≤ n) := by
  have hbrace := expect_charge "\x7d" s.rest
  have hcomma := skipComma_length_le (expect "\x7d" s.rest).rest
  have hentry : ∀ t ts item, s.rest = t :: ts → Entry.read s.top.selector t ts = item →
      item.notes.length + 2 * item.rest.length ≤ 2 * s.rest.length := by
    rintro t ts _ hrest rfl
    rw [hrest]
    exact Entry.read_charge s.top.selector t ts
  simp only [Parsed.charge, charge, depth] at hbrace h
  apply step_cases
  case ends =>
    intro _ _
    simp only [Round.Satisfies, Parsed.charge, Array.length_toList, size_append_list]
    omega
  case closes =>
    intro _ f fs hbelow
    rw [hbelow, List.length_cons] at h
    simp only [Round.Satisfies, charge, depth, size_append_list]
    omega
  case fails =>
    intro t ts item _ hrest hitem _
    have hle := hentry t ts item hrest hitem
    simp only [Round.Satisfies, Parsed.charge, Array.length_toList, size_append_list]
    omega
  case opens =>
    rintro t ts _ selector hrest rfl hvalue
    have hle := hentry t ts _ hrest rfl
    have hopened := expect_charge_of_isMark (Entry.nextIsMark_of_opening hvalue)
    simp only [Parsed.charge] at hopened
    simp only [Round.Satisfies, charge, depth, size_append_list, List.length_cons]
    omega
  case adds =>
    intro t ts item e hrest hitem _ _
    have hle := hentry t ts item hrest hitem
    simp only [Round.Satisfies, charge, depth, size_append_list]
    omega

theorem run_charge (s : Nesting) : s.run.charge ≤ s.charge :=
  run_invariant (fun _ _ => step_charge) (List.suffix_refl s.rest) (Nat.le_refl s.charge)

end Nesting

theorem Block.read_charge (selector : String) {tokens : List Token} (hbrace : nextIsMark tokens "\x7b" = true) :
    (read selector tokens).charge ≤ 2 * tokens.length := by
  have hopened := expect_charge_of_isMark hbrace
  have hrun := Nesting.run_charge (Nesting.begin selector tokens)
  have hbegin : (Nesting.begin selector tokens).charge = (expect "\x7b" tokens).charge + 1 := rfl
  show (Nesting.begin selector tokens).run.charge ≤ 2 * tokens.length
  omega

/-! ## Documents -/

namespace Document

theorem selector?_charge {t : Token} {ts : List Token} {s : Parsed String} (h : selector? t ts = some s) :
    s.charge ≤ 2 * ts.length + 1 := by
  unfold selector? at h
  split at h
  · cases h
    simp only [Parsed.charge, List.length_nil]
    omega
  split at h
  · cases h
    exact bracketedSelector_charge ts
  · cases h

/-- **The tokens of a document pay for its diagnostics**, each for two. -/
theorem read_charge (tokens : List Token) : (read tokens).charge ≤ 2 * tokens.length := by
  match tokens with
  | [] =>
    rw [read]
    exact Nat.le_refl 0
  | t :: ts =>
    rw [List.length_cons]
    cases hs : selector? t ts with
    | none =>
      have ih := read_charge ts
      rw [read_of_none hs]
      omega
    | some s =>
      have hselector := selector?_charge hs
      have hrest_le := (selector?_suffix hs).length_le
      have htail_le := (List.tail_suffix s.rest).length_le
      have hblock_le := (Block.read_suffix s.value s.rest.tail).length_le
      rw [read_of_some hs]
      simp only [Parsed.charge] at hselector
      split
      · have ih := read_charge s.rest
        rw [Parsed.charge_after]
        omega
      split
      · have ih := read_charge s.rest.tail
        rw [Parsed.charge_after]
        omega
      · next hbrace =>
        have hblock := Block.read_charge s.value (by simpa using hbrace)
        have ih := read_charge (Block.read s.value s.rest.tail).rest
        have hfrom : (readFrom s.value s.rest.tail).charge ≤ (Block.read s.value s.rest.tail).charge + 0 := by
          refine Parsed.charge_andThen 0 fun b => ?_
          rw [Parsed.charge_map]
          exact ih
        rw [Parsed.charge_after]
        omega
termination_by tokens.length
decreasing_by all_goals simp only [List.length_cons]; omega

end Document

/-! ## A row of opening brackets -/

section Brackets

variable {brackets : List Token} (hbrackets : ∀ t ∈ brackets, t.isMark "[" = true)
include hbrackets

theorem nextIsMark_brackets {mark : String} (hmark : "[" ≠ mark) : nextIsMark brackets mark = false := by
  cases brackets with
  | nil => rfl
  | cons t ts => exact Token.isMark_of_ne (hbrackets t List.mem_cons_self) hmark

/-- Before a bracket everything else is missing. -/
theorem expect_brackets {wanted : String} (hwanted : "[" ≠ wanted) :
    (expect wanted brackets).rest = brackets ∧ (expect wanted brackets).notes.length = 1 := by
  cases brackets with
  | nil => exact ⟨rfl, rfl⟩
  | cons t ts =>
    have htext := (Token.isMark_iff.1 (hbrackets t List.mem_cons_self)).2
    have hother : ¬(t.text = wanted ∧ t.kind ≠ .literal) := fun h => hwanted (htext.symm.trans h.1)
    rw [expect, if_neg hother]
    exact ⟨rfl, rfl⟩

theorem bracketedSelector_brackets :
    (bracketedSelector brackets).rest = brackets ∧ (bracketedSelector brackets).notes.length = 1 := by
  have hbracket := expect_brackets hbrackets (by decide : "[" ≠ "]")
  cases brackets with
  | nil => exact hbracket
  | cons t ts =>
    have hkind := (Token.isMark_iff.1 (hbrackets t List.mem_cons_self)).1
    rw [bracketedSelector, if_neg (by simp [hkind])]
    exact hbracket

theorem Entry.read_brackets (parent : String) {t : Token} (ht : t.isMark "[" = true) :
    (read parent t brackets).value = .ok .nothing ∧ (read parent t brackets).rest = brackets ∧
      (read parent t brackets).notes.length = 2 := by
  obtain ⟨hfragment, hone⟩ := bracketedSelector_brackets hbrackets
  obtain ⟨hequals, htwo⟩ := expect_brackets hbrackets (by decide : "[" ≠ "=")
  have hbrace := nextIsMark_brackets hbrackets (by decide : "[" ≠ "\x7b")
  have hcomma : skipComma brackets = brackets := by
    rw [skipComma, nextIsMark_brackets hbrackets (by decide)]
    rfl
  rw [read, if_pos ht]
  dsimp only
  rw [hfragment, hequals, hbrace, hcomma]
  refine ⟨rfl, rfl, ?_⟩
  show ((bracketedSelector brackets).notes ++ (expect "=" brackets).notes).length = 2
  rw [List.length_append, hone, htwo]

/-- In a block each bracket gives two diagnostics, and the block itself one more. -/
theorem Nesting.run_brackets (top : Frame) (notes : Array Diagnostic) :
    (run ⟨top, [], brackets, notes⟩).value = .ok top.toBlock ∧ (run ⟨top, [], brackets, notes⟩).rest = [] ∧
      (run ⟨top, [], brackets, notes⟩).notes.length = notes.size + 2 * brackets.length + 1 := by
  induction brackets generalizing notes with
  | nil =>
    rw [run_of_nil]
    simp [collapse]
  | cons t ts ih =>
    obtain ⟨ht, hts⟩ := List.forall_mem_cons.1 hbrackets
    obtain ⟨hvalue, hrest, hnotes⟩ := Entry.read_brackets hts top.selector ht
    have hstep : step ⟨top, [], t :: ts, notes⟩ =
        .more ⟨top, [], ts, notes ++ (Entry.read top.selector t ts).notes⟩ := by
      rw [step_of_entry rfl (by simp [Token.isMark_of_ne ht]), absorb, hvalue]
      simp only [hrest, Frame.add]
    obtain ⟨hblock, hend, hlength⟩ := ih hts (notes ++ (Entry.read top.selector t ts).notes)
    rw [run_of_more hstep]
    refine ⟨hblock, hend, ?_⟩
    rw [hlength, size_append_list, hnotes, List.length_cons]
    omega

/-- A block with nothing but brackets in it, as the only one of a document. -/
theorem Document.read_brackets {key equals brace : Token} (hkey : key.isIdentifier = true)
    (hequals : equals.isMark "=" = true) (hbrace : brace.isMark "\x7b" = true) :
    (read (key :: equals :: brace :: brackets)).notes.length = 2 * brackets.length + 1 := by
  have hselector : selector? key (equals :: brace :: brackets) = some ⟨key.text, equals :: brace :: brackets, []⟩ :=
    if_pos hkey
  have hblock : Block.read key.text (brace :: brackets) =
      Nesting.run ⟨{ selector := key.text }, [], brackets, #[]⟩ := by
    rw [Block.read, expect_of_isMark hbrace]
  obtain ⟨hvalue, hrest, hnotes⟩ := Nesting.run_brackets hbrackets { selector := key.text } #[]
  rw [read_of_some hselector, if_neg (by simp [nextIsMark, hequals]), if_neg (by simp [nextIsMark, hbrace]),
    List.tail_cons, readFrom, hblock, Parsed.andThen_of_ok hvalue, hrest, read]
  simpa using hnotes

end Brackets

namespace Lexeme

/-- Some of the characters that are a mark wherever they stand. -/
theorem first_of_mark {c : Char} (hc : c = '=' ∨ c = '\x7b' ∨ c = '[') (cs : List Char) :
    first c cs = (⟨.punctuation, [c], [c], []⟩, cs) := by
  rcases hc with rfl | rfl | rfl <;> rfl

theorem tokens_mark {c : Char} (hc : c = '=' ∨ c = '\x7b' ∨ c = '[') (p : Position) (cs : List Char) :
    tokens p (c :: cs) = ⟨.punctuation, String.ofList [c], "", p⟩ :: tokens (p.next c) cs := by
  rw [tokens_cons, first_of_mark hc]
  rfl

theorem tokens_brackets (p : Position) (n : Nat) :
    (tokens p (List.replicate n '[')).length = n ∧
      ∀ t ∈ tokens p (List.replicate n '['), t.isMark "[" = true := by
  induction n generalizing p with
  | zero =>
    rw [List.replicate_zero, tokens_nil]
    simp
  | succ n ih =>
    obtain ⟨hlength, hmarks⟩ := ih (p.next '[')
    rw [List.replicate_succ, tokens_mark (by simp)]
    refine ⟨congrArg Nat.succ hlength, List.forall_mem_cons.2 ⟨?_, hmarks⟩⟩
    rfl

end Lexeme

namespace Document

/-- A block that is never closed, with `n` opening brackets in it. -/
def crowded (n : Nat) : String := String.ofList ('a' :: '=' :: '\x7b' :: List.replicate n '[')

theorem significant_crowded (n : Nat) :
    ∃ key equals brace brackets, Token.significant (crowded n) = key :: equals :: brace :: brackets ∧
      key.isIdentifier = true ∧ equals.isMark "=" = true ∧ brace.isMark "\x7b" = true ∧ brackets.length = n ∧
      ∀ t ∈ brackets, t.isMark "[" = true := by
  have hkey : ∀ cs : List Char, Lexeme.first 'a' ('=' :: cs) = (⟨.identifier, ['a'], ['a'], []⟩, '=' :: cs) :=
    fun _ => rfl
  have htokens : Token.significant (crowded n) = Lexeme.tokens {} ('a' :: '=' :: '\x7b' :: List.replicate n '[') := by
    rw [crowded, Token.significant, Token.ofSource, String.toList_ofList]
    rfl
  rw [htokens, Lexeme.tokens_cons, hkey, Lexeme.tokens_mark (by simp), Lexeme.tokens_mark (by simp)]
  exact ⟨_, _, _, _, rfl, rfl, rfl, rfl, Lexeme.tokens_brackets _ n⟩

/-- **Diagnostics cannot flood.** A source has at most twice as many diagnostics as tokens that the grammar sees, also
if it ends in a fault. No smaller factor would do: with `n` opening brackets in a block there are `2 * n + 1`
diagnostics for `n + 3` tokens. -/
theorem read_notes_le (source : String) :
    (read (Token.significant source)).notes.length ≤ 2 * (Token.significant source).length ∧
      ∀ n, (Token.significant (crowded n)).length = n + 3 ∧
        (read (Token.significant (crowded n))).notes.length = 2 * n + 1 := by
  constructor
  · have hcharge := read_charge (Token.significant source)
    rw [Parsed.charge] at hcharge
    omega
  · intro n
    obtain ⟨key, equals, brace, brackets, htokens, hkey, hequals, hbrace, rfl, hbrackets⟩ := significant_crowded n
    rw [htokens]
    exact ⟨rfl, read_brackets hbrackets hkey hequals hbrace⟩

end Document

end NestedStyles
