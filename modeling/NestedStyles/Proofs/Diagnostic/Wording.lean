import NestedStyles.Proofs.Diagnostic.Places
import NestedStyles.Proofs.Preliminaries

/-!
# What a document can be asked for

Many texts are expected on the way through a document, but a brace that opens a block, the word `function` and the
point of a color are looked for only where they have been seen, so they are never reported as missing. A closing brace
and `end` can be missing at the end of the input only. Six texts are left, and each of them is asked for somewhere.

- `Diagnostic.AsksFor`: the message of a diagnostic begins by asking for a text.
- `Diagnostic.Attainable`: what the messages about documents are like.
- `Trail.attainable`: the diagnostics of any trail.
- `Document.read_attainable`: the diagnostics about all documents.
-/

namespace NestedStyles

namespace Diagnostic

/-- Whether the message begins by asking for the text. -/
def AsksFor (d : Diagnostic) (wanted : String) : Prop := ("Expected '" ++ wanted ++ "'").toList <+: d.message.toList

instance (d : Diagnostic) (wanted : String) : Decidable (d.AsksFor wanted) :=
  inferInstanceAs (Decidable (("Expected '" ++ wanted ++ "'").toList <+: d.message.toList))

/-- A diagnostic about a document asks neither for an opening brace nor for `function` or a point. For a closing brace
or `end` it asks at the end of the input, where it has no place. Any other one about a mistake of form asks for `]`,
`=`, `(` or `)`. -/
structure Attainable (d : Diagnostic) : Prop where
  never : ∀ wanted ∈ ["\x7b", "function", "."], ¬d.AsksFor wanted
  at_end : ∀ wanted ∈ ["\x7d", "end"], d.AsksFor wanted →
    d.message = "Expected '" ++ wanted ++ "' but got 'EOF'" ∧ d.line = none ∧ d.column = none
  otherwise : d.isSyntactic = true → (∀ wanted ∈ ["\x7d", "end"], ¬d.AsksFor wanted) →
    ∃ wanted ∈ ["]", "=", "(", ")"], ∃ found, d.message = "Expected '" ++ wanted ++ "' but got '" ++ found ++ "'"

theorem message_about (problem : Problem) (t : Option Token) : (about problem t).message = problem.message := by
  cases t <;> rfl

/-- Two texts without quotes are the same if one of them and a quote begin what the other and a quote begin. The strings
around them are variables, so that no proof looks into the words of a message. -/
theorem quoted_prefix_iff {wanted expected quote between : String} {q : Char} {behind : List Char}
    (hwanted : q ∉ wanted.toList) (hexpected : q ∉ expected.toList) (hquote : quote.toList = [q])
    (hbetween : between.toList = q :: behind) (front found : String) :
    (front ++ wanted ++ quote).toList <+: (front ++ expected ++ between ++ found ++ quote).toList ↔
      wanted = expected := by
  simp only [String.toList_append, List.append_assoc, List.prefix_append_right_inj, hquote, hbetween, List.cons_append]
  constructor
  · rintro ⟨rest, hrest⟩
    rw [List.append_assoc, List.singleton_append] at hrest
    exact String.toList_inj.1 (append_cons_inj_of_not_mem hwanted hexpected hrest).1
  · rintro rfl
    exact (List.prefix_append_right_inj _).2 ⟨_, rfl⟩

/-- A text without quotes is asked for if it is the one that was expected. -/
theorem asksFor_about_iff {wanted expected : String} (hwanted : '\x27' ∉ wanted.toList)
    (hexpected : '\x27' ∉ expected.toList) (found : Option String) (t : Option Token) :
    (about (.expected expected found) t).AsksFor wanted ↔ wanted = expected := by
  have hbetween : "' but got '".toList = '\x27' :: " but got '".toList := by decide +kernel
  rw [AsksFor, message_about]
  exact quoted_prefix_iff hwanted hexpected rfl hbetween "Expected '" (found.getD "EOF")

theorem head?_toList_append {front : String} {c : Char} (h : front.toList.head? = some c) (text : String) :
    (front ++ text).toList.head? = some c := by
  rw [String.toList_append, List.head?_append, h, Option.some_or]

/-- A remark about a color asks for nothing. -/
theorem not_asksFor_remark {problem : Problem} (h : Color.Remark problem) (t : Option Token) (wanted : String) :
    ¬(about problem t).AsksFor wanted := by
  have hasks : ("Expected '" ++ wanted ++ "'").toList.head? = some 'E' :=
    head?_toList_append (head?_toList_append (by decide +kernel) wanted) "'"
  have hother : ∃ c, problem.message.toList.head? = some c ∧ c ≠ 'E' := by
    cases h with
    | unknown name => exact ⟨'U', head?_toList_append (by decide +kernel) name, by decide⟩
    | few name wanted given =>
      refine ⟨'c', ?_, by decide⟩
      exact head?_toList_append (head?_toList_append (head?_toList_append (head?_toList_append
        (head?_toList_append (by decide +kernel) name) _) _) _) _
  obtain ⟨c, hc, hne⟩ := hother
  rw [AsksFor, message_about]
  rintro ⟨rest, hrest⟩
  rw [← hrest, List.head?_append, hasks, Option.some_or, Option.some.injEq] at hc
  exact hne hc.symm

end Diagnostic

/-- What can be missing is one of six texts, two of them only at the end. -/
theorem Missing.mem {wanted : String} {here : List Token} (h : Missing wanted here) :
    wanted ∈ ["]", "=", "(", ")"] ∨ wanted ∈ ["\x7d", "end"] ∧ here = [] := by
  cases h with
  | anywhere h => exact .inl h
  | atEnd h => exact .inr ⟨h, rfl⟩

namespace Diagnostic

/-- Of all the texts that are ever expected, the one that is missing is asked for. -/
theorem asksFor_missing_iff {wanted text : String} {here : List Token} (h : Missing wanted here)
    (htext : text ∈ ["]", "=", "(", ")"] ∨ text ∈ ["\x7d", "end"] ∨ text ∈ ["\x7b", "function", "."]) :
    (about (.expected wanted (here.head?.map Token.text)) here.head?).AsksFor text ↔ text = wanted := by
  have hplain : ∀ text, text ∈ ["]", "=", "(", ")"] ∨ text ∈ ["\x7d", "end"] ∨ text ∈ ["\x7b", "function", "."] →
      '\x27' ∉ text.toList := by
    have hall : ∀ text ∈ ["]", "=", "(", ")"] ++ (["\x7d", "end"] ++ ["\x7b", "function", "."]),
        '\x27' ∉ text.toList := by decide +kernel
    intro text htext
    exact hall text (by simpa only [List.mem_append] using htext)
  exact asksFor_about_iff (hplain text htext) (hplain wanted (h.mem.imp_right fun hmem => .inl hmem.1)) _ _

theorem attainable_of_missing {wanted : String} {here : List Token} (h : Missing wanted here) :
    (about (.expected wanted (here.head?.map Token.text)) here.head?).Attainable := by
  have hnever : ∀ text ∈ ["\x7b", "function", "."], text ∉ ["]", "=", "(", ")"] ∧ text ∉ ["\x7d", "end"] := by decide
  have hclosing : ∀ text ∈ ["\x7d", "end"], text ∉ ["]", "=", "(", ")"] := by decide
  refine ⟨fun text htext hasks => ?_, fun text htext hasks => ?_, fun _ hnot => ?_⟩
  · obtain rfl := (asksFor_missing_iff h (.inr (.inr htext))).1 hasks
    rcases h.mem with hmem | ⟨hmem, -⟩
    · exact (hnever text htext).1 hmem
    · exact (hnever text htext).2 hmem
  · obtain rfl := (asksFor_missing_iff h (.inr (.inl htext))).1 hasks
    rcases h.mem with hmem | ⟨-, rfl⟩
    · exact absurd hmem (hclosing text htext)
    · exact ⟨message_expected_none text, rfl, rfl⟩
  · rcases h.mem with hmem | ⟨hmem, -⟩
    · exact ⟨wanted, hmem, (here.head?.map Token.text).getD "EOF", message_about _ _⟩
    · exact absurd ((asksFor_missing_iff h (.inr (.inl hmem))).2 rfl) (hnot wanted hmem)

theorem attainable_of_remark {problem : Problem} (h : Color.Remark problem) (t : Option Token) :
    (about problem t).Attainable := by
  have hasks := not_asksFor_remark h t
  refine ⟨fun text _ => hasks text, fun text _ h' => absurd h' (hasks text), fun hsyntactic => ?_⟩
  rw [isSyntactic_about, h.kind_eq] at hsyntactic
  cases hsyntactic

end Diagnostic

/-- **Every diagnostic of a trail is attainable.** -/
theorem Trail.attainable {tokens start rest : List Token} {notes : List Diagnostic}
    (h : Trail tokens start notes rest) : ∀ d ∈ notes, d.Attainable := by
  intro d hd
  rcases h.missing_or_remark hd with ⟨wanted, here, -, hmissing, rfl⟩ | ⟨problem, about, hremark, -, rfl⟩
  · exact Diagnostic.attainable_of_missing hmissing
  · exact Diagnostic.attainable_of_remark hremark about

namespace Sample

/-- A selector without its bracket, one without its equals sign, and a function literal that lacks all the rest. -/
def unfinished : String := "p = \x7b [\"a\" = \x7b\x7d, [\"b\"] \x7b\x7d, hover = function x = 1"

/-- The diagnostics about it, in their order. -/
def unfinishedNotes : List Diagnostic :=
  [⟨.expected "]" (some "="), some 1, some 12⟩, ⟨.expected "=" (some "\x7b"), some 1, some 24⟩,
    ⟨.expected "(" (some "x"), some 1, some 45⟩, ⟨.expected ")" (some "x"), some 1, some 45⟩,
    ⟨.expected "end" none, none, none⟩, ⟨.expected "\x7d" none, none, none⟩]

theorem read_unfinished :
    Document.read (Token.significant unfinished) =
      ⟨.ok [⟨"p", [], [⟨"p a", [], []⟩, ⟨"p b", [], []⟩, ⟨"p:hover", [⟨"x", "1"⟩], []⟩]⟩], [], unfinishedNotes⟩ := by
  decide +kernel

end Sample

/-- **What is asked for.** No source makes reading ask for an opening brace, `function` or a point. It asks for a
closing brace or `end` only at the end of the input, and else only for `]`, `=`, `(` and `)`. Each of these six is asked
for somewhere. -/
theorem Document.read_attainable :
    (∀ source, ∀ d ∈ (read (Token.significant source)).notes, d.Attainable) ∧
      ∀ wanted ∈ ["]", "=", "(", ")", "\x7d", "end"], ∃ source blocks,
        (read (Token.significant source)).value = .ok blocks ∧
          ∃ d ∈ (read (Token.significant source)).notes, d.AsksFor wanted := by
  refine ⟨fun source => (read_trail (List.suffix_refl _)).attainable, fun wanted hwanted => ?_⟩
  have hasked : ∀ wanted ∈ ["]", "=", "(", ")", "\x7d", "end"], ∃ d ∈ Sample.unfinishedNotes, d.AsksFor wanted := by
    decide +kernel
  refine ⟨Sample.unfinished, _, by rw [Sample.read_unfinished], ?_⟩
  rw [Sample.read_unfinished]
  exact hasked wanted hwanted

theorem Document.read_attainable_unfinished :
    (read (Token.significant Sample.unfinished)).notes = Sample.unfinishedNotes ∧
      (∀ d ∈ Sample.unfinishedNotes, d.Attainable) ∧
      Diagnostic.AsksFor ⟨.expected "end" none, none, none⟩ "end" := by
  have hnotes : (read (Token.significant Sample.unfinished)).notes = Sample.unfinishedNotes := by
    rw [Sample.read_unfinished]
  exact ⟨hnotes, hnotes ▸ Document.read_attainable.1 Sample.unfinished, by decide +kernel⟩

end NestedStyles
