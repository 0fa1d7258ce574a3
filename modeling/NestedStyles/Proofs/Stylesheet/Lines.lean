import NestedStyles.Stylesheet
import NestedStyles.Proofs.Preliminaries

/-!
# The lines of a style sheet

Selectors, properties and values may be any text on one line, with braces, semicolons or blanks of their own. So nothing
inside a line says what the line is; its place does. The first line of a rule is its selector, the lines below it are
its declarations up to the first line that is a closing brace and nothing else, and a property ends at the first colon.
This is enough to tell any two lists of rules apart by their text.

- `Rule.Plain`: rules that are written on lines of their own.
- `Stylesheet.toList_render`: the text is the lines of the rules.
- `Rule.lines_append_inj`: the first rule is known from the lines.
- `Stylesheet.render_eq_iff`: the text determines the rules.
-/

namespace NestedStyles

/-- A rule with a declaration, of texts without line feeds, whose properties have no colon. -/
structure Rule.Plain (r : Rule) : Prop where
  declarations_ne_nil : r.declarations ≠ []
  selector : '\n' ∉ r.selector.toList
  property : ∀ d ∈ r.declarations, '\n' ∉ d.property.toList ∧ ':' ∉ d.property.toList
  value : ∀ d ∈ r.declarations, '\n' ∉ d.value.toList

instance (r : Rule) : Decidable r.Plain :=
  decidable_of_iff
    (r.declarations ≠ [] ∧ '\n' ∉ r.selector.toList ∧
      (∀ d ∈ r.declarations, '\n' ∉ d.property.toList ∧ ':' ∉ d.property.toList) ∧
        ∀ d ∈ r.declarations, '\n' ∉ d.value.toList)
    ⟨fun ⟨hne, hselector, hproperty, hvalue⟩ => ⟨hne, hselector, hproperty, hvalue⟩,
      fun hr => ⟨hr.declarations_ne_nil, hr.selector, hr.property, hr.value⟩⟩

/-! ## Lines -/

/-- The spaces before a declaration. -/
def padding (indent : Int) : List Char := List.replicate indent.toNat ' '

def Declaration.line (indent : Int) (d : Declaration) : List Char :=
  padding indent ++ (d.property.toList ++ ':' :: ' ' :: (d.value.toList ++ [';']))

def Rule.lines (indent : Int) (r : Rule) : List (List Char) :=
  (r.selector.toList ++ [' ', '\x7b']) :: (r.declarations.map (Declaration.line indent) ++ [['\x7d']])

/-- The lines of rules that follow another one: each stands below an empty line. -/
def Stylesheet.linesBelow (indent : Int) (rules : List Rule) : List (List Char) :=
  rules.flatMap fun r => [] :: r.lines indent

def Stylesheet.lines (indent : Int) : List Rule → List (List Char)
  | [] => []
  | r :: rules => r.lines indent ++ linesBelow indent rules

section Text

variable (indent : Int)

theorem Declaration.toList_render (d : Declaration) :
    (d.render (String.ofList (List.replicate indent.toNat ' '))).toList = d.line indent := by
  simp [render, line, padding]

theorem Rule.lines_ne_nil (r : Rule) : r.lines indent ≠ [] := List.cons_ne_nil _ _

/-- A rule is its lines, if there is one between its braces. -/
theorem Rule.toList_render {r : Rule} (hr : r.declarations ≠ []) :
    (r.render indent).toList = ['\n'].intercalate (r.lines indent) := by
  have hlines : r.declarations.map (Declaration.line indent) ≠ [] := by simpa using hr
  rw [lines, List.intercalate_cons_of_ne_nil (by simp), intercalate_append '\n' hlines (by simp)]
  simp [render, String.toList_intercalate, Function.comp_def, Declaration.toList_render]

/-- **The text of a style sheet is the lines of its rules.** -/
theorem Stylesheet.toList_render {rules : List Rule} (h : ∀ r ∈ rules, r.declarations ≠ []) :
    (render indent rules).toList = ['\n'].intercalate (lines indent rules) := by
  match rules with
  | [] => rfl
  | [r] =>
    have hr := Rule.toList_render indent (h r List.mem_cons_self)
    simp [render, lines, linesBelow, hr]
  | r :: s :: rules =>
    have hr := Rule.toList_render indent (h r List.mem_cons_self)
    have hrest := toList_render fun r' hr' => h r' (List.mem_cons_of_mem r hr')
    have hlines : lines indent (r :: s :: rules) = r.lines indent ++ [] :: lines indent (s :: rules) := by
      simp [lines, linesBelow]
    rw [hlines, intercalate_append '\n' (r.lines_ne_nil indent) (List.cons_ne_nil _ _),
      List.intercalate_cons_of_ne_nil (by simp [lines, Rule.lines]), ← hr, ← hrest]
    simp [render, String.intercalate_cons_cons]

theorem Rule.render_ne_empty (r : Rule) : r.render indent ≠ "" := by
  intro h
  have hlist := congrArg String.toList h
  simp [render] at hlist

end Text

theorem Stylesheet.render_eq_empty_iff {indent : Int} {rules : List Rule} : render indent rules = "" ↔ rules = [] := by
  match rules with
  | [] => exact ⟨fun _ => rfl, fun _ => rfl⟩
  | [r] => simp [render, r.render_ne_empty indent]
  | r :: s :: rules =>
    have hne : render indent (r :: s :: rules) ≠ "" := by
      rw [render, List.map_cons, List.map_cons, String.intercalate_cons_cons]
      intro h
      have hlist := congrArg String.toList h
      simp at hlist
    simp [hne]

/-! ## Lines have no line feeds -/

section Plain

variable {indent : Int} {r : Rule} {rules : List Rule}

theorem newline_not_mem_padding : '\n' ∉ padding indent := by
  intro h
  have hspace : '\n' = ' ' := List.eq_of_mem_replicate h
  exact absurd hspace (by decide)

theorem Rule.Plain.newline_not_mem (hr : r.Plain) {l : List Char} (hl : l ∈ r.lines indent) : '\n' ∉ l := by
  simp only [lines, List.mem_cons, List.mem_append, List.mem_map, List.not_mem_nil, or_false] at hl
  rcases hl with rfl | ⟨d, hd, rfl⟩ | rfl
  · simp [hr.selector]
  · simp [Declaration.line, newline_not_mem_padding, (hr.property d hd).1, hr.value d hd]
  · decide

theorem Stylesheet.newline_not_mem_lines (h : ∀ r ∈ rules, r.Plain) {l : List Char} (hl : l ∈ lines indent rules) :
    '\n' ∉ l := by
  cases rules with
  | nil => exact absurd hl List.not_mem_nil
  | cons r rules =>
    simp only [lines, linesBelow, List.mem_append, List.mem_flatMap, List.mem_cons] at hl
    rcases hl with hl | ⟨s, hs, rfl | hl⟩
    · exact (h r List.mem_cons_self).newline_not_mem hl
    · exact List.not_mem_nil
    · exact (h s (List.mem_cons_of_mem r hs)).newline_not_mem hl

/-- The lines can be read off the text. -/
theorem Stylesheet.splitOn_render (h : ∀ r' ∈ r :: rules, r'.Plain) :
    (render indent (r :: rules)).toList.splitOn '\n' = lines indent (r :: rules) := by
  rw [toList_render indent fun r' hr' => (h r' hr').declarations_ne_nil]
  exact List.splitOn_intercalate '\n' (fun l hl => newline_not_mem_lines h hl) (by simp [lines, Rule.lines])

end Plain

/-! ## The rules of the lines -/

section Reading

variable {indent : Int}

/-- A declaration ends in a semicolon, so it is no closing brace, even without indentation. -/
theorem Declaration.line_ne_brace (d : Declaration) : d.line indent ≠ ['\x7d'] := by
  intro h
  have hlast : some ';' = some '\x7d' := by
    simpa [line, List.getLast?_cons] using congrArg List.getLast? h
  exact absurd hlast (by decide)

theorem Declaration.line_inj {d d' : Declaration} (hd : ':' ∉ d.property.toList) (hd' : ':' ∉ d'.property.toList)
    (h : d.line indent = d'.line indent) : d = d' := by
  -- the value may have colons, but the first one is behind the property
  obtain ⟨hproperty, hrest⟩ := append_cons_inj_of_not_mem hd hd' (List.append_cancel_left h)
  have hvalue : d.value.toList = d'.value.toList := List.append_cancel_right (List.tail_eq_of_cons_eq hrest)
  cases d
  cases d'
  simp_all [String.toList_inj]

theorem Declaration.map_line_inj {ds ds' : List Declaration} (hds : ∀ d ∈ ds, ':' ∉ d.property.toList)
    (hds' : ∀ d ∈ ds', ':' ∉ d.property.toList) (h : ds.map (line indent) = ds'.map (line indent)) : ds = ds' := by
  induction ds generalizing ds' with
  | nil => simpa using h
  | cons d ds ih =>
    cases ds' with
    | nil => simp at h
    | cons d' ds' =>
      obtain ⟨hline, h⟩ := List.cons.inj h
      rw [List.forall_mem_cons] at hds hds'
      rw [line_inj hds.1 hds'.1 hline, ih hds.2 hds'.2 h]

/-- **The first rule and the lines below it are known from the lines.** -/
theorem Rule.lines_append_inj {r r' : Rule} (hr : r.Plain) (hr' : r'.Plain) {rest rest' : List (List Char)}
    (h : r.lines indent ++ rest = r'.lines indent ++ rest') : r = r' ∧ rest = rest' := by
  have brace_not_mem (ds : List Declaration) : ['\x7d'] ∉ ds.map (Declaration.line indent) := by
    simp [Declaration.line_ne_brace]
  simp only [lines, List.cons_append, List.append_assoc, List.nil_append] at h
  obtain ⟨hselector, h⟩ := List.cons.inj h
  -- below the selector the first line that is a brace closes the rule
  obtain ⟨hlines, hrest⟩ := append_cons_inj_of_not_mem (brace_not_mem _) (brace_not_mem _) h
  have hselector : r.selector = r'.selector := String.toList_inj.1 (List.append_cancel_right hselector)
  have hdeclarations : r.declarations = r'.declarations :=
    Declaration.map_line_inj (fun d hd => (hr.property d hd).2) (fun d hd => (hr'.property d hd).2) hlines
  refine ⟨?_, hrest⟩
  cases r
  cases r'
  simp_all

theorem Stylesheet.linesBelow_inj {rules rules' : List Rule} (h : ∀ r ∈ rules, r.Plain) (h' : ∀ r ∈ rules', r.Plain)
    (hlines : linesBelow indent rules = linesBelow indent rules') : rules = rules' := by
  induction rules generalizing rules' with
  | nil =>
    cases rules' with
    | nil => rfl
    | cons r' rules' => simp [linesBelow] at hlines
  | cons r rules ih =>
    cases rules' with
    | nil => simp [linesBelow] at hlines
    | cons r' rules' =>
      rw [List.forall_mem_cons] at h h'
      simp only [linesBelow, List.flatMap_cons, List.cons_append] at hlines
      obtain ⟨hr, hrest⟩ := Rule.lines_append_inj h.1 h'.1 (List.tail_eq_of_cons_eq hlines)
      rw [hr, ih h.2 h'.2 hrest]

theorem Stylesheet.render_cons_inj {r r' : Rule} {rules rules' : List Rule} (h : ∀ s ∈ r :: rules, s.Plain)
    (h' : ∀ s ∈ r' :: rules', s.Plain) (htext : render indent (r :: rules) = render indent (r' :: rules')) :
    r :: rules = r' :: rules' := by
  have hlines : lines indent (r :: rules) = lines indent (r' :: rules') := by
    rw [← splitOn_render h, ← splitOn_render h', htext]
  rw [List.forall_mem_cons] at h h'
  obtain ⟨hr, hrest⟩ := Rule.lines_append_inj h.1 h'.1 hlines
  rw [hr, linesBelow_inj h.2 h'.2 hrest]

end Reading

/-- **The text of a style sheet determines its rules**, whatever the indentation is. -/
theorem Stylesheet.render_eq_iff (indent : Int) {rules rules' : List Rule} (h : ∀ r ∈ rules, r.Plain)
    (h' : ∀ r ∈ rules', r.Plain) : render indent rules = render indent rules' ↔ rules = rules' := by
  constructor
  · intro htext
    match rules, rules' with
    | [], rules' => exact (render_eq_empty_iff.1 htext.symm).symm
    | rules, [] => exact render_eq_empty_iff.1 htext
    | r :: rules, r' :: rules' => exact render_cons_inj h h' htext
  · intro heq
    rw [heq]

/-- Two declarations, or one whose value looks like the end of the first and the second, and a selector that looks like
the end of a rule. -/
theorem Stylesheet.render_eq_iff_lookalikes :
    render 0 [⟨"\x7d", [⟨"a", "b"⟩, ⟨"c", "d"⟩]⟩, ⟨"", [⟨"", "\x7d"⟩]⟩] ≠
      render 0 [⟨"\x7d", [⟨"a", "b;c: d"⟩]⟩, ⟨"", [⟨"", "\x7d"⟩]⟩] := by
  intro htext
  exact absurd ((render_eq_iff 0 (by decide) (by decide)).1 htext) (by decide)

/-- With a colon in a property it does not. -/
example : Stylesheet.render 2 [⟨"p", [⟨"a: b", "c"⟩]⟩] = Stylesheet.render 2 [⟨"p", [⟨"a", "b: c"⟩]⟩] := by
  decide +kernel

end NestedStyles
