import NestedStyles.Proofs.Block.Descent
import NestedStyles.Proofs.Block.Preorder
import NestedStyles.Proofs.Preliminaries

/-!
# Selectors come from the block around

The selector of a nested block is made when the block begins, and the block is put into the one around it when it ends,
maybe much later, at the end of the input or behind mistakes. Still it is always made from the selector of the block it
ends up in.

- `Selector.Fragment`: what the tokens of a source can contribute to a selector.
- `Block.DerivedFrom`: a block whose selector is made from that of another one.
- `Block.Lineal`, `Nesting.Lineal`: forests and stacks of open blocks in which all nested blocks are so.
- `Nesting.step_lineal`, `Nesting.run_lineal`: a round keeps this, and so does a run.
- `Document.read_lineal`: a document.
- `Document.read_selectors_derived`: the selectors of a source, and those of its rules.
-/

namespace NestedStyles

namespace Selector

/-- A literal, nothing at all, or a key in its written form. -/
inductive Fragment (tokens : List Token) : String → Prop
  | literal {t : Token} (ht : t ∈ tokens) (hkind : t.kind = .literal) : Fragment tokens t.text
  | absent : Fragment tokens ""
  | key {t : Token} (ht : t ∈ tokens) (hkind : t.kind = .identifier) : Fragment tokens (hyphenate t.text)

theorem Fragment.mono {here tokens : List Token} {fragment : String} (h : Fragment here fragment)
    (hhere : here <:+ tokens) : Fragment tokens fragment := by
  cases h with
  | literal ht hkind => exact .literal (hhere.subset ht) hkind
  | absent => exact .absent
  | key ht hkind => exact .key (hhere.subset ht) hkind

/-! ## Ampersands -/

theorem ampersand_not_mem_resolve {parent : String} (hparent : '&' ∉ parent.toList) (fragment : String) :
    '&' ∉ (resolve parent fragment).toList := by
  unfold resolve
  split
  · -- every ampersand of the fragment gives way to the parent
    simp only [substitute, String.toList_ofList, List.mem_flatMap, not_exists, not_and]
    intro c _ hmem
    split at hmem
    · exact hparent hmem
    · next hne => exact hne (List.mem_singleton.1 hmem).symm
  · next hfragment =>
    have hfragment' : '&' ∉ fragment.toList := by simpa using hfragment
    split
    · simp [hparent, hfragment']
    · simp [hparent, hfragment']

theorem ampersand_mem_of_hyphenate {name : String} (h : '&' ∈ (hyphenate name).toList) : '&' ∈ name.toList := by
  rw [hyphenate, String.toList_ofList, List.mem_map] at h
  obtain ⟨c, hc, hchanged⟩ := h
  split at hchanged
  · exact absurd hchanged (by decide)
  · exact hchanged ▸ hc

theorem ampersand_not_mem_pseudo {parent key : String} (hparent : '&' ∉ parent.toList) (hkey : isPseudo key = true) :
    '&' ∉ (pseudo parent key).toList := by
  have hnames : ∀ name ∈ pseudoClasses ++ pseudoElements, '&' ∉ name.toList := by decide +kernel
  have hname : '&' ∉ (hyphenate key).toList := fun h =>
    hnames key (by simpa [isPseudo] using hkey) (ampersand_mem_of_hyphenate h)
  rw [pseudo, if_pos hkey]
  split
  · simp [hparent, hname]
  · simp [hparent, hname]

end Selector

namespace Block

/-- A block whose selector is made from that of the block around it: it is resolved from a fragment, or it continues
the parent by a pseudo key, and then there are no blocks inside it. -/
inductive DerivedFrom (tokens : List Token) (parent : String) (c : Block) : Prop
  | resolved {fragment : String} (hfragment : Selector.Fragment tokens fragment)
      (hselector : c.selector = Selector.resolve parent fragment)
  | pseudo {t : Token} (ht : t ∈ tokens) (hkind : t.kind = .identifier) (hpseudo : Selector.isPseudo t.text = true)
      (hselector : c.selector = Selector.pseudo parent t.text) (hleaf : c.children = [])

/-- All blocks that are nested in a forest, at any depth, have their selectors from the blocks around them. -/
def Lineal (tokens : List Token) (bs : List Block) : Prop :=
  ∀ n : Block, n.Occurs bs → ∀ c ∈ n.children, c.DerivedFrom tokens n.selector

variable {tokens : List Token} {b : Block} {bs : List Block}

theorem lineal_nil : Lineal tokens [] := everywhere_nil

theorem lineal_cons_iff :
    Lineal tokens (b :: bs) ↔
      (∀ c ∈ b.children, c.DerivedFrom tokens b.selector) ∧ Lineal tokens b.children ∧ Lineal tokens bs :=
  everywhere_cons_iff

theorem Lineal.append {as : List Block} (has : Lineal tokens as) (hbs : Lineal tokens bs) :
    Lineal tokens (as ++ bs) := Everywhere.append has hbs

/-- Selectors without ampersands are passed on from the outermost blocks to all others. -/
theorem Lineal.ampersand_not_mem (h : Lineal tokens bs) (houtermost : ∀ b ∈ bs, '&' ∉ b.selector.toList) {n : Block}
    (hn : n.Occurs bs) : '&' ∉ n.selector.toList := by
  induction hn with
  | outermost hmem => exact houtermost n hmem
  | @inside a bs ha hinside ih =>
    refine ih (fun m hm => h m (.inside ha hm)) fun c hc => ?_
    have hparent := houtermost a ha
    rcases h a (.outermost ha) c hc with ⟨_, hselector⟩ | ⟨_, _, hpseudo, hselector, _⟩
    · rw [hselector]
      exact Selector.ampersand_not_mem_resolve hparent _
    · rw [hselector]
      exact Selector.ampersand_not_mem_pseudo hparent hpseudo

end Block

/-! ## Entries -/

theorem bracketedSelector_fragment (here : List Token) :
    Selector.Fragment here (bracketedSelector here).value := by
  unfold bracketedSelector
  split
  · exact .absent
  · next t ts =>
    split
    · next hliteral => exact .literal List.mem_cons_self hliteral
    · exact .absent

/-- What an entry adds to a block with the selector `parent`. -/
def Entry.DerivedFrom (tokens : List Token) (parent : String) : Entry → Prop
  | .nested b => b.DerivedFrom tokens parent ∧ b.children = []
  | .opening selector => ∃ fragment, Selector.Fragment tokens fragment ∧ selector = Selector.resolve parent fragment
  | _ => True

theorem Entry.read_derivedFrom {tokens : List Token} {parent : String} {t : Token} {ts : List Token} {e : Entry}
    (htokens : t :: ts <:+ tokens) : (read parent t ts).value = .ok e → e.DerivedFrom tokens parent := by
  have ht : t ∈ tokens := htokens.subset List.mem_cons_self
  apply read_cases (motive := fun p => p.value = .ok e → e.DerivedFrom tokens parent)
  case bracketed =>
    rintro _ _ ⟨⟩
    exact ⟨_, (bracketedSelector_fragment ts).mono ((List.suffix_cons t ts).trans htokens), rfl⟩
  case unopened => rintro _ _ ⟨⟩; trivial
  case skipped => rintro _ ⟨⟩; trivial
  case lone => rintro _ _ ⟨⟩; trivial
  case function =>
    intro hkey _ hpseudo _ h
    obtain ⟨declarations, -, ⟨⟩⟩ := Parsed.exists_of_andThen h
    exact ⟨.pseudo ht (Token.isIdentifier_iff.1 hkey) hpseudo rfl rfl, rfl⟩
  case block =>
    rintro hkey _ _ ⟨⟩
    exact ⟨_, .key ht (Token.isIdentifier_iff.1 hkey), rfl⟩
  case pair =>
    intro _ _ _ h
    obtain ⟨value, -, ⟨⟩⟩ := Parsed.exists_of_andThen h
    cases Declaration.ofPair? t.text value <;> trivial

/-! ## Open blocks -/

namespace Frame

/-- The blocks that an open block has collected have their selectors from it, and so on inside them. -/
def Lineal (tokens : List Token) (f : Frame) : Prop :=
  (∀ c ∈ f.children.toList, c.DerivedFrom tokens f.selector) ∧ Block.Lineal tokens f.children.toList

variable {tokens : List Token} {f : Frame}

theorem lineal_empty (selector : String) : Lineal tokens { selector } := ⟨nofun, Block.lineal_nil⟩

theorem Lineal.toBlock (h : f.Lineal tokens) : Block.Lineal tokens [f.toBlock] :=
  Block.lineal_cons_iff.2 ⟨h.1, h.2, Block.lineal_nil⟩

theorem Lineal.adopt (h : f.Lineal tokens) {c : Block} (hderived : c.DerivedFrom tokens f.selector)
    (hc : Block.Lineal tokens [c]) : (f.adopt c).Lineal tokens := by
  have hchildren : (f.adopt c).children.toList = f.children.toList ++ [c] := Array.toList_push
  unfold Lineal
  rw [hchildren]
  refine ⟨fun d hd => ?_, h.2.append hc⟩
  rcases List.mem_append.1 hd with hd | hd
  · exact h.1 d hd
  · rw [List.mem_singleton.1 hd]
    exact hderived

theorem Lineal.add (h : f.Lineal tokens) {e : Entry} (he : e.DerivedFrom tokens f.selector) :
    (f.add e).Lineal tokens := by
  cases e with
  | nothing | declaration | opening => exact h
  | nested b =>
    refine h.adopt he.1 (Block.lineal_cons_iff.2 ⟨?_, ?_, Block.lineal_nil⟩)
    · rw [he.2]
      exact nofun
    · rw [he.2]
      exact Block.lineal_nil

end Frame

namespace Nesting

/-- Each open block is lineal, and its selector is resolved from that of the next one around it: this is what it will
be asked for when it is closed. -/
def Lineal (tokens : List Token) : Frame → List Frame → Prop
  | top, [] => top.Lineal tokens
  | top, f :: fs =>
    top.Lineal tokens ∧
      (∃ fragment, Selector.Fragment tokens fragment ∧ top.selector = Selector.resolve f.selector fragment) ∧
      Lineal tokens f fs

variable {tokens : List Token} {top top' : Frame} {below : List Frame} {s : Nesting}

theorem Lineal.innermost (h : Lineal tokens top below) : top.Lineal tokens := by
  cases below with
  | nil => exact h
  | cons f fs => exact h.1

/-- The innermost block may grow while it keeps its selector. -/
theorem Lineal.grow (h : Lineal tokens top below) (htop : top'.Lineal tokens)
    (hselector : top'.selector = top.selector) : Lineal tokens top' below := by
  cases below with
  | nil => exact htop
  | cons f fs =>
    obtain ⟨-, ⟨fragment, hfragment, hresolve⟩, hbelow⟩ := h
    exact ⟨htop, ⟨fragment, hfragment, hselector.trans hresolve⟩, hbelow⟩

/-- A block that is closed is lineal, since the open ones are. -/
theorem step_lineal (hrest : s.rest <:+ tokens) (h : Lineal tokens s.top s.below) :
    s.step.Satisfies (fun s => Lineal tokens s.top s.below)
      fun outcome => ∀ b, outcome.value = .ok b → Block.Lineal tokens [b] := by
  have hentry : ∀ t ts item e, s.rest = t :: ts → Entry.read s.top.selector t ts = item → item.value = .ok e →
      e.DerivedFrom tokens s.top.selector := by
    rintro t ts _ e hts rfl hvalue
    exact Entry.read_derivedFrom (hts ▸ hrest) hvalue
  apply step_cases
  case ends =>
    rintro _ _ b ⟨⟩
    exact h.innermost.toBlock
  case closes =>
    intro _ f fs hbelow
    rw [hbelow] at h
    obtain ⟨htop, ⟨fragment, hfragment, hresolve⟩, hbelow⟩ := h
    exact hbelow.grow (hbelow.innermost.adopt (.resolved hfragment hresolve) htop.toBlock) rfl
  case fails => rintro _ _ _ _ _ _ _ b ⟨⟩
  case opens =>
    intro t ts item selector hts hitem hvalue
    exact ⟨Frame.lineal_empty selector, hentry t ts item _ hts hitem hvalue, h⟩
  case adds =>
    intro t ts item e hts hitem hvalue _
    exact h.grow (h.innermost.add (hentry t ts item e hts hitem hvalue)) (Descent.add_selector _ _)

/-- **A run gives a block in which all selectors come from the blocks around.** -/
theorem run_lineal (hrest : s.rest <:+ tokens) (h : Lineal tokens s.top s.below) :
    ∀ b, s.run.value = .ok b → Block.Lineal tokens [b] :=
  run_invariant (fun _ => step_lineal) hrest h

end Nesting

theorem Block.read_lineal {tokens : List Token} (selector : String) {here : List Token} (hhere : here <:+ tokens)
    {b : Block} (hb : (read selector here).value = .ok b) : Lineal tokens [b] := by
  have hempty : Nesting.Lineal tokens { selector } [] := Frame.lineal_empty selector
  exact Nesting.run_lineal ((expect_suffix "\x7b" here).trans hhere) hempty b hb

/-! ## Documents -/

/-- **In a document all selectors of nested blocks come from the blocks around.** -/
theorem Document.read_lineal (tokens here : List Token) (hhere : here <:+ tokens) (blocks : List Block)
    (h : (read here).value = .ok blocks) : Block.Lineal tokens blocks :=
  read_everywhere (fun selector _ _ hsuffix hb => Block.read_lineal selector hsuffix hb) here hhere blocks h

/-- **Selectors are derived from the true parent.** In the forest of a source, the selector of every nested block is
made from that of the block it is in, and from a token of the source. So if there is no ampersand in the outermost
selectors, there is none in the selectors of rules. -/
theorem Document.read_selectors_derived (source : String) (blocks : List Block)
    (h : (read (Token.significant source)).value = .ok blocks) :
    (∀ n : Block, n.Occurs blocks → ∀ c ∈ n.children, c.DerivedFrom (Token.significant source) n.selector) ∧
      ((∀ b ∈ blocks, '&' ∉ b.selector.toList) → ∀ r ∈ Block.rules blocks, '&' ∉ r.selector.toList) := by
  have hlineal : Block.Lineal (Token.significant source) blocks := read_lineal _ _ (List.suffix_refl _) blocks h
  refine ⟨hlineal, fun houtermost r hr => ?_⟩
  obtain ⟨b, hb, -, rfl⟩ := Block.exists_occurs_of_mem_rules hr
  exact hlineal.ampersand_not_mem houtermost hb

namespace Sample

/-- Blocks that are not closed, with an ampersand in a literal and brackets around nothing. -/
def menu : String :=
  "nav = \x7b li_item = \x7b [\"&:hover, .on &\"] = \x7b before = function() ink = red end \x7d, [] = \x7b gap = 1"

def marker : Block := ⟨"nav li-item:hover, .on nav li-item::before", [⟨"ink", "red"⟩], []⟩

def hovered : Block := ⟨"nav li-item:hover, .on nav li-item", [], [marker]⟩

def item : Block := ⟨"nav li-item", [], [hovered, ⟨"nav li-item ", [⟨"gap", "1"⟩], []⟩]⟩

end Sample

theorem Document.read_selectors_derived_menu :
    (read (Token.significant Sample.menu)).value = .ok [⟨"nav", [], [Sample.item]⟩] ∧
      Sample.item.Occurs [⟨"nav", [], [Sample.item]⟩] ∧ Sample.hovered ∈ Sample.item.children ∧
      Sample.hovered.DerivedFrom (Token.significant Sample.menu) Sample.item.selector ∧
      (∀ b ∈ [(⟨"nav", [], [Sample.item]⟩ : Block)], '&' ∉ b.selector.toList) ∧
      Sample.marker.rule ∈ Block.rules [⟨"nav", [], [Sample.item]⟩] ∧ '&' ∉ Sample.marker.selector.toList := by
  have hvalue : (read (Token.significant Sample.menu)).value = .ok [⟨"nav", [], [Sample.item]⟩] := by decide +kernel
  have hitem : Sample.item.Occurs [⟨"nav", [], [Sample.item]⟩] :=
    .inside List.mem_cons_self (.outermost List.mem_cons_self)
  have houtermost : ∀ b ∈ [(⟨"nav", [], [Sample.item]⟩ : Block)], '&' ∉ b.selector.toList := by decide +kernel
  have hrule : Sample.marker.rule ∈ Block.rules [⟨"nav", [], [Sample.item]⟩] := by decide +kernel
  obtain ⟨hderived, hampersand⟩ := read_selectors_derived Sample.menu _ hvalue
  have hhovered : Sample.hovered ∈ Sample.item.children := List.mem_cons_self
  have hfree : '&' ∉ Sample.marker.rule.selector.toList := hampersand houtermost Sample.marker.rule hrule
  exact ⟨hvalue, hitem, hhovered, hderived _ hitem _ hhovered, houtermost, hrule, hfree⟩

end NestedStyles
