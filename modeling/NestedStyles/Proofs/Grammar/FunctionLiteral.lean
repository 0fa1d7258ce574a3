import NestedStyles.Proofs.Grammar.Reading

/-!
# Function literals under any key

Under a pseudo key, a function literal is a block of its own. Any other key has no value then: the reader steps over
the key, the word `function` and its parentheses one by one, and takes the pairs for entries of the block around them,
up to `end`, which is stepped over too. Nothing of this is reported.

- `Grammar.FunctionEntry.run_tokens`: what the innermost block collects from a function literal.
- `Grammar.FunctionEntry.read_among`: a block with a function literal among its entries, and the same block without it.
-/

namespace NestedStyles

/-! ## Tokens that are stepped over -/

section Skipping

variable {top : Frame} {below : List Frame} {ts : List Token} {notes : Array Diagnostic}

theorem Nesting.run_nothing {t : Token} {rest : List Token} (ht : t.isMark "\x7d" = false)
    (hread : Entry.read top.selector t ts = ⟨.ok .nothing, rest, []⟩) :
    run ⟨top, below, t :: ts, notes⟩ = run ⟨top, below, rest, notes⟩ := by
  refine run_of_more ?_
  simp [step, ht, hread, absorb, Frame.add]

namespace Grammar

theorem Mark.run_nothing {mark : String} (m : Mark mark) (hbracket : mark ≠ "[") (hbrace : mark ≠ "\x7d") :
    Nesting.run ⟨top, below, m.1 :: ts, notes⟩ = Nesting.run ⟨top, below, ts, notes⟩ := by
  refine Nesting.run_nothing (Token.isMark_of_ne m.2 hbrace) ?_
  rw [Entry.read, if_neg (by simp [Token.isMark_of_ne m.2 hbracket]),
    if_pos (by simp [Token.isIdentifier_of_isMark m.2])]

/-- A word without an equals sign behind it is no key. -/
theorem Word.run_nothing {name : String} (w : Word name) (hts : nextIsMark ts "=" = false) :
    Nesting.run ⟨top, below, w.1 :: ts, notes⟩ = Nesting.run ⟨top, below, skipComma ts, notes⟩ := by
  have hw := Word.isIdentifier w
  refine Nesting.run_nothing (Token.isMark_of_isIdentifier hw _) ?_
  rw [Entry.read, if_neg (by simp [Token.isMark_of_isIdentifier hw]), if_neg (by simp [hw]), if_pos (by simp [hts])]

end Grammar

end Skipping

namespace Grammar

/-! ## Function literals -/

/-- `key = function ( ) pairs end ,` with any name for a key. -/
structure FunctionEntry where
  key : Name
  equals : Mark "="
  word : Word "function"
  opening : Mark "("
  closing : Mark ")"
  pairs : List InnerPair
  stop : Word "end"
  comma : Mark ","

namespace FunctionEntry

def tokens (e : FunctionEntry) : List Token :=
  e.key.1 :: e.equals.1 :: e.word.1 :: e.opening.1 :: e.closing.1 ::
    (e.pairs.flatMap (·.tokens) ++ [e.stop.1, e.comma.1])

/-- The declarations that a function literal adds to the block around it. -/
def declarations (e : FunctionEntry) : List Declaration :=
  if Selector.isPseudo e.key.1.text then [] else e.pairs.map (·.declaration)

/-- The block that a function literal adds to a block with selector `parent`. -/
def block? (parent : String) (e : FunctionEntry) : Option Block :=
  if Selector.isPseudo e.key.1.text then
    some ⟨Selector.pseudo parent e.key.1.text, e.pairs.map (·.declaration), []⟩
  else none

theorem declarations_eq_nil_iff (e : FunctionEntry) :
    e.declarations = [] ↔ Selector.isPseudo e.key.1.text = true ∨ e.pairs = [] := by
  cases hkey : Selector.isPseudo e.key.1.text <;> simp [declarations, hkey]

/-- Behind a key that is no pseudo key, `function` is no value. -/
theorem read_key (e : FunctionEntry) (hkey : Selector.isPseudo e.key.1.text = false) (parent : String)
    (rest : List Token) :
    Entry.read parent e.key.1 (e.equals.1 :: e.word.1 :: rest) = ⟨.ok .nothing, e.word.1 :: rest, []⟩ := by
  have hequals : nextIsMark (e.equals.1 :: e.word.1 :: rest) "=" = true := e.equals.2
  have hmark : ∀ mark, nextIsMark (e.word.1 :: rest) mark = false :=
    Token.isMark_of_isIdentifier (Word.isIdentifier e.word)
  have hvalue : Value.read (e.word.1 :: rest) = ⟨.ok "", e.word.1 :: rest, []⟩ := by
    rw [Value.read, if_neg (by simp [Token.isNamed_of_ne e.word.2]), if_pos (by simp [Value.isAbsent, e.word.2])]
  have hcomma : skipComma (e.word.1 :: rest) = e.word.1 :: rest := if_neg (by simp [hmark])
  rw [Entry.read_of_key (by simp [Token.isMark_of_isIdentifier e.key.2]) (by simp [e.key.2]) (by simp [hequals]),
    if_neg (by simp [hkey]), List.tail_cons, if_neg (by simp [hmark]), hvalue, Parsed.andThen_of_ok rfl]
  simp [hcomma, Declaration.ofPair?, Parsed.after]

/-- The pairs of a function literal as entries. -/
def items (e : FunctionEntry) : List Item := e.pairs.map fun p => .pair p.toPair

theorem tokensAll_items (e : FunctionEntry) : Item.tokensAll e.items = e.pairs.flatMap (·.tokens) := by
  unfold items
  induction e.pairs with
  | nil => rfl
  | cons p ps ih => rw [List.map_cons, Item.tokensAll, ih, List.flatMap_cons, Item.tokens]

theorem declarations_items (e : FunctionEntry) :
    e.items.filterMap Item.declaration? = e.pairs.map (·.declaration) := by
  simp [items, List.filterMap_map, Function.comp_def, Item.declaration?]

theorem blocks_items (e : FunctionEntry) (parent : String) : Item.blocks parent e.items = [] := by
  unfold items
  induction e.pairs with
  | nil => rfl
  | cons p ps ih => rw [List.map_cons, Item.blocks, ih, Item.block?, Option.toList_none, List.append_nil]

/-- **A function literal on the stack.** Without a pseudo key, its pairs are taken for entries of the block around
it. -/
theorem run_tokens (e : FunctionEntry) (hlexed : ∀ t ∈ e.tokens, t.Lexed) (top : Frame) (below : List Frame)
    (rest : List Token) (notes : Array Diagnostic) :
    Nesting.run ⟨top, below, e.tokens ++ rest, notes⟩ =
      Nesting.run ⟨top.collect e.declarations (e.block? top.selector).toList, below, rest, notes⟩ := by
  cases hkey : Selector.isPseudo e.key.1.text with
  | true =>
    have hitem := (Item.function ⟨e.key, hkey⟩ e.equals e.word e.opening e.closing e.pairs e.stop e.comma).run_tokens
      hlexed top below rest notes
    rw [declarations, block?, if_pos hkey, if_pos hkey]
    exact hitem
  | false =>
    have hshape : e.tokens ++ rest = e.key.1 :: e.equals.1 :: e.word.1 :: e.opening.1 :: e.closing.1 ::
        (Item.tokensAll e.items ++ e.stop.1 :: e.comma.1 :: rest) := by
      simp [tokens, tokensAll_items]
    have hitems : ∀ t ∈ Item.tokensAll e.items, t.Lexed := by
      intro t ht
      refine hlexed t ?_
      rw [tokensAll_items] at ht
      simp only [tokens, List.mem_cons, List.mem_append]
      exact .inr (.inr (.inr (.inr (.inr (.inl ht)))))
    have hopening : ∀ ts mark, "(" ≠ mark → nextIsMark (e.opening.1 :: ts) mark = false := fun _ _ =>
      Token.isMark_of_ne e.opening.2
    have hcomma : ∀ ts, nextIsMark (e.comma.1 :: ts) "=" = false := fun _ => Token.isMark_of_ne e.comma.2 (by decide)
    have hstay : ∀ ts, skipComma (e.opening.1 :: ts) = e.opening.1 :: ts := fun ts =>
      if_neg (by simp [hopening ts "," (by decide)])
    rw [hshape, Nesting.run_nothing (Token.isMark_of_isIdentifier e.key.2 _) (e.read_key hkey _ _),
      Word.run_nothing e.word (hopening _ _ (by decide)), hstay, Mark.run_nothing e.opening (by decide) (by decide),
      Mark.run_nothing e.closing (by decide) (by decide), Item.run_tokensAll e.items hitems,
      Word.run_nothing e.stop (hcomma rest), skipComma_of_isMark e.comma.2, declarations_items, blocks_items]
    simp [declarations, block?, hkey]

/-- **A block with a function literal among its entries**, and the same block without it: the block's own declarations
are the same exactly if the key is a pseudo key or the literal is empty. Otherwise the pairs stand among them, as if
they were written without the function around them. There is no diagnostic in either case. -/
theorem read_among (e : FunctionEntry) (he : ∀ t ∈ e.tokens, t.Lexed) (selector : String) (opening : Mark "\x7b")
    (before after : List Item) (hbefore : ∀ t ∈ Item.tokensAll before, t.Lexed)
    (hafter : ∀ t ∈ Item.tokensAll after, t.Lexed) (closing : Mark "\x7d") (rest : List Token) :
    Block.read selector (opening.1 ::
        (Item.tokensAll before ++ (e.tokens ++ (Item.tokensAll after ++ closing.1 :: rest)))) =
      ⟨.ok ⟨selector,
        before.filterMap Item.declaration? ++ e.declarations ++ after.filterMap Item.declaration?,
        Item.blocks selector before ++ (e.block? selector).toList ++ Item.blocks selector after⟩, rest, []⟩ ∧
    Block.read selector (opening.1 :: (Item.tokensAll before ++ (Item.tokensAll after ++ closing.1 :: rest))) =
      ⟨.ok ⟨selector, before.filterMap Item.declaration? ++ after.filterMap Item.declaration?,
        Item.blocks selector before ++ Item.blocks selector after⟩, rest, []⟩ ∧
    (before.filterMap Item.declaration? ++ e.declarations ++ after.filterMap Item.declaration? =
        before.filterMap Item.declaration? ++ after.filterMap Item.declaration? ↔
      Selector.isPseudo e.key.1.text = true ∨ e.pairs = []) := by
  refine ⟨?_, ?_, ?_⟩
  · rw [Block.read, expect_of_isMark opening.2, Item.run_tokensAll before hbefore, e.run_tokens he,
      Item.run_tokensAll after hafter, Nesting.run_last closing.2]
    simp [Frame.toBlock, Frame.collect]
  · rw [Block.read, expect_of_isMark opening.2, Item.run_tokensAll before hbefore, Item.run_tokensAll after hafter,
      Nesting.run_last closing.2]
    simp [Frame.toBlock, Frame.collect]
  · rw [List.append_assoc, List.append_cancel_left_eq, List.append_left_eq_self, declarations_eq_nil_iff]

end FunctionEntry

/-! ### A pseudo key and a misspelt one -/

namespace Sample

/-- A block with a function literal between two pairs. -/
def literalSource (key : String) : String :=
  "\x7b gap = 0, " ++ key ++ " = function ( ) top = 1, end, ink = 2, \x7d"

def numberPair (key text : String) (column : Nat) : Pair :=
  ⟨name key column, mark "=" (column + 4), .plain (numeral text (column + 6)), mark "," (column + 7)⟩

/-- The function literal; `column` is where its key ends. -/
def literal (key : String) (column : Nat) : FunctionEntry :=
  ⟨name key 12, mark "=" (column + 1), word "function" (column + 3), mark "(" (column + 12), mark ")" (column + 14),
    [⟨numberPair "top" "1" (column + 16), rfl⟩], word "end" (column + 25), mark "," (column + 28)⟩

/-- The tokens from the pair behind the function literal to the end of the block. -/
def behindLiteral (column : Nat) : List Token :=
  Item.tokensAll [.pair (numberPair "ink" "2" (column + 30))] ++ [(mark "\x7d" (column + 39)).1]

def literalTokens (key : String) (column : Nat) : List Token :=
  (mark "\x7b" 1).1 ::
    (Item.tokensAll [.pair (numberPair "gap" "0" 3)] ++ ((literal key column).tokens ++ behindLiteral column))

/-- The same block without the function literal. -/
def plainTokens (column : Nat) : List Token :=
  (mark "\x7b" 1).1 :: (Item.tokensAll [.pair (numberPair "gap" "0" 3)] ++ behindLiteral column)

theorem literalTokens_hover : literalTokens "hover" 17 = Token.significant (literalSource "hover") := by
  decide +kernel

theorem literalTokens_hoover : literalTokens "hoover" 18 = Token.significant (literalSource "hoover") := by
  decide +kernel

end Sample

theorem FunctionEntry.read_among_hover :
    (∀ t ∈ Sample.literalTokens "hover" 17, t.Lexed) ∧
      Block.read "a" (Sample.literalTokens "hover" 17) =
        ⟨.ok ⟨"a", [⟨"gap", "0"⟩, ⟨"ink", "2"⟩], [⟨"a:hover", [⟨"top", "1"⟩], []⟩]⟩, [], []⟩ := by
  have hlexed : ∀ t ∈ Sample.literalTokens "hover" 17, t.Lexed := fun t ht =>
    ⟨Sample.literalSource "hover", Sample.literalTokens_hover ▸ ht⟩
  obtain ⟨-, hinside⟩ := List.forall_mem_cons.1 hlexed
  obtain ⟨hbefore, hmore⟩ := List.forall_mem_append.1 hinside
  obtain ⟨hliteral, hmore⟩ := List.forall_mem_append.1 hmore
  obtain ⟨hafter, -⟩ := List.forall_mem_append.1 hmore
  refine ⟨hlexed, (FunctionEntry.read_among _ hliteral "a" _ _ _ hbefore hafter _ []).1.trans ?_⟩
  decide +kernel

/-- Under a key that is no pseudo key, the declaration inside the function lands among those of the block. -/
theorem FunctionEntry.read_hoover :
    (∀ t ∈ Sample.literalTokens "hoover" 18, t.Lexed) ∧
      Block.read "a" (Sample.plainTokens 18) = ⟨.ok ⟨"a", [⟨"gap", "0"⟩, ⟨"ink", "2"⟩], []⟩, [], []⟩ ∧
      Block.read "a" (Sample.literalTokens "hoover" 18) =
        ⟨.ok ⟨"a", [⟨"gap", "0"⟩, ⟨"top", "1"⟩, ⟨"ink", "2"⟩], []⟩, [], []⟩ := by
  refine ⟨fun t ht => ⟨Sample.literalSource "hoover", Sample.literalTokens_hoover ▸ ht⟩, ?_, ?_⟩
  · decide +kernel
  · decide +kernel

end Grammar

end NestedStyles
