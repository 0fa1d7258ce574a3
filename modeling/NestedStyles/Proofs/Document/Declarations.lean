import NestedStyles.Proofs.Block.Preorder
import NestedStyles.Proofs.Preliminaries
import NestedStyles.Proofs.Value.Emptiness

/-!
# Where declarations come from

A declaration is made in two places, for an entry of a block and inside a function, and each time from a key and from a
value that is not empty. So wherever it ends up in the forest, its property is written with the characters of a name
and its value says something.

- `Declaration.ReadFrom`: a declaration that is made from a key and a value among some tokens.
- `Declaration.readAll_readFrom`, `Entry.read_declares`: functions and entries.
- `Nesting.step_declares`, `Nesting.run_declares`: a round keeps this of all open blocks, and so does a run.
- `Declaration.Complete`, `Declaration.ReadFrom.complete`: what this says about the texts.
- `Document.read_declarations_complete`: the values and the declarations of a source.
-/

namespace NestedStyles

namespace Declaration

/-- A declaration that is made from a key and from a value that is not empty, both found among the tokens. -/
structure ReadFrom (tokens : List Token) (d : Declaration) : Prop where
  key : ∃ t ∈ tokens, t.kind = .identifier ∧ d.property = Selector.hyphenate t.text
  value : ∃ here, here <:+ tokens ∧ (Value.read here).value = .ok d.value
  present : d.value ≠ ""

variable {tokens here : List Token} {t : Token} {value : String}

theorem ofPair?_readFrom (ht : t ∈ tokens) (hkind : t.kind = .identifier) (hhere : here <:+ tokens)
    (hvalue : (Value.read here).value = .ok value) : ∀ d ∈ ofPair? t.text value, d.ReadFrom tokens := by
  unfold ofPair?
  split
  · exact nofun
  · next hpresent =>
    rintro d ⟨⟩
    exact ⟨⟨t, ht, hkind, rfl⟩, ⟨here, hhere, hvalue⟩, hpresent⟩

/-! ## Functions -/

theorem readAll_readFrom (here : List Token) (hhere : here <:+ tokens) (ds : List Declaration)
    (h : (readAll here).value = .ok ds) : ∀ d ∈ ds, d.ReadFrom tokens := by
  fun_induction readAll here generalizing ds with
  | case1 =>
    cases h
    intro d hd
    cases hd
  | case2 =>
    cases h
    intro d hd
    cases hd
  | case3 t ts _ _ ih => exact ih ((List.suffix_cons t ts).trans hhere) ds h
  | case4 t ts _ _ _ ih => exact ih ((skipComma_suffix ts).trans ((List.suffix_cons t ts).trans hhere)) ds h
  | case5 => cases h
  | case6 t ts _ hkey _ v value hvalue more ih =>
    have htail := (List.tail_suffix ts).trans ((List.suffix_cons t ts).trans hhere)
    have hkind : t.kind = .identifier := Token.isIdentifier_iff.1 (by simpa using hkey)
    have hpair := ofPair?_readFrom (hhere.subset List.mem_cons_self) hkind htail hvalue
    obtain ⟨behind, hmore, rfl⟩ := map_eq_ok_iff.1 h
    have hbehind := ih ((skipComma_suffix v.rest).trans ((Value.read_suffix _).trans htail)) behind hmore
    intro d hd
    rcases List.mem_append.1 hd with hd | hd
    · exact hpair d (by simpa using hd)
    · exact hbehind d hd

theorem readFunction_readFrom (hhere : here <:+ tokens) {ds : List Declaration}
    (h : (readFunction here).value = .ok ds) : ∀ d ∈ ds, d.ReadFrom tokens := by
  have hbody := (expect_suffix ")" _).trans ((expect_suffix "(" _).trans ((expect_suffix "function" _).trans hhere))
  obtain ⟨declarations, hall, ⟨⟩⟩ := Parsed.exists_of_andThen h
  exact readAll_readFrom _ hbody _ hall

end Declaration

/-! ## Entries -/

/-- All declarations of a block itself are read from the tokens. -/
def Block.Declares (tokens : List Token) (b : Block) : Prop := ∀ d ∈ b.declarations, d.ReadFrom tokens

/-- What an entry adds to a block. -/
def Entry.Declares (tokens : List Token) : Entry → Prop
  | .declaration d => d.ReadFrom tokens
  | .nested b => b.Declares tokens ∧ b.children = []
  | _ => True

theorem Entry.read_declares {tokens : List Token} {parent : String} {t : Token} {ts : List Token} {e : Entry}
    (htokens : t :: ts <:+ tokens) : (read parent t ts).value = .ok e → e.Declares tokens := by
  have hts : ts.tail <:+ tokens := (List.tail_suffix ts).trans ((List.suffix_cons t ts).trans htokens)
  apply read_cases (motive := fun p => p.value = .ok e → e.Declares tokens)
  case bracketed => rintro _ _ ⟨⟩; trivial
  case unopened => rintro _ _ ⟨⟩; trivial
  case skipped => rintro _ ⟨⟩; trivial
  case lone => rintro _ _ ⟨⟩; trivial
  case function =>
    intro _ _ _ _ h
    obtain ⟨declarations, hvalue, ⟨⟩⟩ := Parsed.exists_of_andThen h
    exact ⟨Declaration.readFunction_readFrom hts hvalue, rfl⟩
  case block => rintro _ _ _ ⟨⟩; trivial
  case pair =>
    intro hkey _ _ h
    obtain ⟨value, hvalue, ⟨⟩⟩ := Parsed.exists_of_andThen h
    have hkind := Token.isIdentifier_iff.1 hkey
    have hpair := Declaration.ofPair?_readFrom (htokens.subset List.mem_cons_self) hkind hts hvalue
    cases hd : Declaration.ofPair? t.text value with
    | none => trivial
    | some d => exact hpair d hd

/-! ## Open blocks -/

namespace Frame

/-- The declarations of an open block are read from the tokens, and so are those of the blocks it has collected. -/
def Declares (tokens : List Token) (f : Frame) : Prop := Block.Everywhere (Block.Declares tokens) [f.toBlock]

variable {tokens : List Token} {f : Frame}

theorem declares_empty (selector : String) : Declares tokens { selector } :=
  Block.everywhere_cons_iff.2 ⟨nofun, Block.everywhere_nil, Block.everywhere_nil⟩

theorem Declares.adopt (h : f.Declares tokens) {c : Block} (hc : Block.Everywhere (Block.Declares tokens) [c]) :
    (f.adopt c).Declares tokens := by
  obtain ⟨hown, hinside, -⟩ := Block.everywhere_cons_iff.1 h
  have hchildren : (f.adopt c).toBlock.children = f.toBlock.children ++ [c] := Array.toList_push
  refine Block.everywhere_cons_iff.2 ⟨hown, ?_, Block.everywhere_nil⟩
  rw [hchildren]
  exact hinside.append hc

theorem Declares.add (h : f.Declares tokens) {e : Entry} (he : e.Declares tokens) : (f.add e).Declares tokens := by
  cases e with
  | nothing | opening => exact h
  | nested b =>
    refine h.adopt (Block.everywhere_cons_iff.2 ⟨he.1, ?_, Block.everywhere_nil⟩)
    rw [he.2]
    exact Block.everywhere_nil
  | declaration d =>
    obtain ⟨hown, hinside, -⟩ := Block.everywhere_cons_iff.1 h
    refine Block.everywhere_cons_iff.2 ⟨fun d' hd => ?_, hinside, Block.everywhere_nil⟩
    have hdeclarations : (f.add (.declaration d)).toBlock.declarations = f.toBlock.declarations ++ [d] :=
      Array.toList_push
    rw [hdeclarations] at hd
    rcases List.mem_append.1 hd with hd | hd
    · exact hown d' hd
    · rw [List.mem_singleton.1 hd]
      exact he

end Frame

namespace Nesting

variable {tokens : List Token} {s : Nesting}

def Declares (tokens : List Token) (s : Nesting) : Prop := ∀ f ∈ s.top :: s.below, f.Declares tokens

theorem declares_iff : s.Declares tokens ↔ s.top.Declares tokens ∧ ∀ f ∈ s.below, f.Declares tokens :=
  List.forall_mem_cons

/-- A block that is closed has its declarations from the tokens, since the open ones have. -/
theorem step_declares (hrest : s.rest <:+ tokens) (h : s.Declares tokens) :
    s.step.Satisfies (Declares tokens)
      fun outcome => ∀ b, outcome.value = .ok b → Block.Everywhere (Block.Declares tokens) [b] := by
  obtain ⟨htop, hbelow⟩ := declares_iff.1 h
  apply step_cases
  case ends =>
    rintro _ _ b ⟨⟩
    exact htop
  case closes =>
    intro _ f fs hfs
    rw [hfs] at hbelow
    obtain ⟨hf, hrest⟩ := List.forall_mem_cons.1 hbelow
    exact declares_iff.2 ⟨hf.adopt htop, hrest⟩
  case fails => rintro _ _ _ _ _ _ _ b ⟨⟩
  case opens => exact fun _ _ _ selector _ _ _ => declares_iff.2 ⟨Frame.declares_empty selector, h⟩
  case adds =>
    rintro t ts _ e hts rfl hvalue _
    exact declares_iff.2 ⟨htop.add (Entry.read_declares (hts ▸ hrest) hvalue), hbelow⟩

/-- **A run gives a block in which all declarations are read from the tokens.** -/
theorem run_declares (hrest : s.rest <:+ tokens) (h : s.Declares tokens) :
    ∀ b, s.run.value = .ok b → Block.Everywhere (Block.Declares tokens) [b] :=
  run_invariant (fun _ => step_declares) hrest h

end Nesting

theorem Block.read_declares {tokens here : List Token} (selector : String) (hhere : here <:+ tokens) {b : Block}
    (hb : (read selector here).value = .ok b) : Everywhere (Declares tokens) [b] := by
  refine Nesting.run_declares ((expect_suffix "\x7b" here).trans hhere) ?_ b hb
  exact Nesting.declares_iff.2 ⟨Frame.declares_empty selector, nofun⟩

/-! ## Texts -/

/-- A declaration that says something: its property is a word of letters, digits and hyphens. -/
structure Declaration.Complete (d : Declaration) : Prop where
  value : d.value ≠ ""
  property : d.property ≠ ""
  chars : ∀ c ∈ d.property.toList, c.isAlphanum = true ∨ c = '-'

/-- No underscore is a letter, a digit or a hyphen. -/
theorem Declaration.Complete.underscore_not_mem {d : Declaration} (h : d.Complete) : '_' ∉ d.property.toList :=
  fun hmem => absurd (h.chars '_' hmem) (by decide)

theorem Selector.hyphenate_ne_empty {name : String} (h : name ≠ "") : hyphenate name ≠ "" := by
  intro hempty
  have hlist : name.toList = [] := by
    have hmap := congrArg String.toList hempty
    rw [hyphenate, String.toList_ofList] at hmap
    exact List.map_eq_nil_iff.1 hmap
  exact h (String.toList_eq_nil_iff.1 hlist)

/-- The written form of a name has hyphens in the place of underscores. -/
theorem Selector.hyphenate_chars {name : String} (h : ∀ c ∈ name.toList, Lexeme.isNameChar c = true) :
    ∀ c ∈ (hyphenate name).toList, c.isAlphanum = true ∨ c = '-' := by
  intro c hc
  rw [hyphenate, String.toList_ofList, List.mem_map] at hc
  obtain ⟨a, ha, hchanged⟩ := hc
  split at hchanged
  · exact .inr hchanged.symm
  · next hunderscore =>
    subst hchanged
    simpa [Lexeme.isNameChar, Char.isAlphanum, hunderscore] using h a ha

theorem Declaration.ReadFrom.complete {source : String} {d : Declaration} (h : d.ReadFrom (Token.significant source)) :
    d.Complete := by
  obtain ⟨t, ht, hkind, hproperty⟩ := h.key
  have hlexed : t.Lexed := ⟨source, ht⟩
  obtain ⟨hne, hchars⟩ := hlexed.name_chars hkind
  refine ⟨h.present, ?_, ?_⟩
  · rw [hproperty]
    exact Selector.hyphenate_ne_empty hne
  · rw [hproperty]
    exact Selector.hyphenate_chars hchars

/-- **An empty value means that nothing was taken**, at every place of a source, and then nothing was recorded. So no
declaration of a document is empty, and its property is a word of letters, digits and hyphens. -/
theorem Document.read_declarations_complete (source : String) :
    (∀ s : Stream, s.tokens = Token.significant source → s.position ≤ s.tokens.length →
      ∀ text s', s.perform .value = (.ok (.text text), s') →
        (text = "" ↔ s'.position = s.position) ∧ (text = "" → s'.notes = s.notes)) ∧
      ∀ blocks, (read (Token.significant source)).value = .ok blocks →
        ∀ b : Block, b.Occurs blocks → ∀ d ∈ b.declarations, d.Complete ∧ '_' ∉ d.property.toList := by
  constructor
  · intro s htokens hs text s' h
    exact Stream.perform_value_empty_iff htokens hs h
  · intro blocks h b hb d hd
    have hdeclares : Block.Everywhere (Block.Declares (Token.significant source)) blocks :=
      read_everywhere (fun selector _ _ hhere => Block.read_declares selector hhere) _ (List.suffix_refl _) _ h
    have hcomplete := (hdeclares b hb d hd).complete
    exact ⟨hcomplete, hcomplete.underscore_not_mem⟩

namespace Sample

/-- A block with a color that lacks arguments, a key without a value and a function. -/
def panel : String := "p = \x7b back_ink = color.hsl(9), gap = end, hover = function() z_index = 2 end \x7d"

/-- The stream of the panel at a place. -/
def panelAt (position : Nat) : Stream := { Stream.ofSource panel with position }

def zIndex : Declaration := ⟨"z-index", "2"⟩

def panelBlock : Block := ⟨"p", [⟨"back-ink", "hsl(9, 0%, 0%)"⟩], [⟨"p:hover", [zIndex], []⟩]⟩

end Sample

/-- Behind `gap` there is no value and the stream stays; the color is reported, and still it is taken. -/
theorem Document.read_declarations_complete_panel :
    (∃ s', (Sample.panelAt 14).perform .value = (.ok (.text ""), s') ∧ s'.position = 14 ∧ s'.notes = []) ∧
      (∃ s', (Sample.panelAt 5).perform .value = (.ok (.text "hsl(9, 0%, 0%)"), s') ∧ s'.position ≠ 5) ∧
      (read (Token.significant Sample.panel)).value = .ok [Sample.panelBlock] ∧
      Sample.zIndex.Complete ∧ '_' ∉ Sample.zIndex.property.toList := by
  obtain ⟨hvalues, hdeclarations⟩ := read_declarations_complete Sample.panel
  have hlength : 14 ≤ (Token.significant Sample.panel).length := by decide +kernel
  refine ⟨?_, ?_, ?_⟩
  · have h : (Sample.panelAt 14).perform .value = (.ok (.text ""), ((Sample.panelAt 14).perform .value).2) := by
      decide +kernel
    obtain ⟨hposition, hnotes⟩ := hvalues (Sample.panelAt 14) rfl hlength _ _ h
    exact ⟨_, h, hposition.1 rfl, hnotes rfl⟩
  · have h : (Sample.panelAt 5).perform .value =
        (.ok (.text "hsl(9, 0%, 0%)"), ((Sample.panelAt 5).perform .value).2) := by
      decide +kernel
    obtain ⟨hposition, -⟩ := hvalues (Sample.panelAt 5) rfl (Nat.le_trans (by decide) hlength) _ _ h
    exact ⟨_, h, fun hsame => absurd (hposition.2 hsame) (by decide)⟩
  · have hread : (read (Token.significant Sample.panel)).value = .ok [Sample.panelBlock] := by decide +kernel
    have hinside : (⟨"p:hover", [Sample.zIndex], []⟩ : Block).Occurs [Sample.panelBlock] :=
      .inside List.mem_cons_self (.outermost List.mem_cons_self)
    exact ⟨hread, hdeclarations _ hread _ hinside Sample.zIndex List.mem_cons_self⟩

end NestedStyles
