import NestedStyles.Proofs.Block.Preorder
import NestedStyles.Proofs.Compilation.Outcome
import NestedStyles.Proofs.Grammar.Commas
import NestedStyles.Proofs.Token.Printed

/-!
# Nesting can be written out

A document can be written without nesting: each block, and each function, becomes an outermost block under its full
selector, with the pairs that are its own, in the order in which the document opens them. Both compile to the same
style sheet. Inside a function a value may also begin with an opening brace, which opens a block everywhere else; no
value of the grammar does, and the last theorem shows what happens to one that does.

- `Grammar.Document.unnested`: the document written out.
- `Grammar.Document.blocks_unnested`: its blocks are those of the document, side by side in pre-order.
- `Grammar.Document.lexed_unnested`: its tokens can be written in a source.
- `Grammar.Document.compile_unnested`: it compiles to the same rules and the same style sheet.
-/

namespace NestedStyles

namespace Grammar

/-! ## New tokens -/

/-- A mark at the beginning of a source. -/
def Mark.new (mark : String) : Mark mark := ⟨⟨.punctuation, mark, "", {}⟩, by simp [Token.isMark]⟩

/-- A literal at the beginning of a source. -/
def Literal.new (text : String) : Literal := ⟨⟨.literal, text, "", {}⟩, rfl⟩

/-- Every text can be written as a literal. -/
theorem Literal.lexed_new (text : String) : (Literal.new text).1.Lexed := by
  have hfirst : Lexeme.first '"' (Token.escape text.toList ++ ['"']) =
      (⟨.literal, '"' :: (Token.escape text.toList ++ ['"']), text.toList, []⟩, []) := by
    rw [Lexeme.first_of_quote (.inl rfl), Lexeme.literal, Lexeme.interior_escape]
  refine ⟨(Literal.new text).1.spelling, ?_⟩
  show (Literal.new text).1 ∈ Lexeme.tokens {} (Literal.new text).1.spelling.toList
  have hspelling : (Literal.new text).1.spelling.toList = '"' :: (Token.escape text.toList ++ ['"']) := by
    simp [Literal.new, Token.spelling]
  have htoken : (⟨.literal, '"' :: (Token.escape text.toList ++ ['"']), text.toList, []⟩ : Lexeme).token {} =
      (Literal.new text).1 := by
    simp [Lexeme.token, Literal.new]
  rw [hspelling, Lexeme.tokens_cons, hfirst, htoken]
  exact List.mem_append_left _ List.mem_cons_self

/-! ## Documents without nesting -/

/-- `["selector"] = { pairs }` -/
def Statement.flat (selector : String) (pairs : List Pair) : Statement where
  head := .bracketed (.new "[") (.new selector) (.new "]")
  equals := .new "="
  opening := .new "\x7b"
  items := pairs.map .pair
  closing := .new "\x7d"

namespace Item

/-- The pair that an entry is. -/
def pair? : Item → Option Pair
  | .pair p => some p
  | .nested .. => none
  | .function .. => none

mutual

/-- The blocks that an entry of a block with selector `parent` opens, each by itself, in the order in which they are
opened. -/
def unnested (parent : String) : Item → Document
  | .pair _ => []
  | .nested head _ _ items _ _ =>
    Statement.flat (head.resolve parent) (items.filterMap pair?) :: unnestedAll (head.resolve parent) items
  | .function key _ _ _ _ pairs _ _ => [Statement.flat (Selector.pseudo parent key.1.1.text) (pairs.map (·.toPair))]

def unnestedAll (parent : String) : List Item → Document
  | [] => []
  | i :: is => i.unnested parent ++ unnestedAll parent is

end

end Item

def Statement.unnested (s : Statement) : Document :=
  Statement.flat s.head.selector (s.items.filterMap Item.pair?) :: Item.unnestedAll s.head.selector s.items

/-- **The document without nesting.** -/
def Document.unnested (d : Document) : Document := d.flatMap Statement.unnested

/-! ## The blocks of the document without nesting -/

theorem Statement.block_flat (selector : String) (pairs : List Pair) :
    (flat selector pairs).block = ⟨selector, pairs.map Pair.declaration, []⟩ := by
  have hdeclarations : ∀ pairs : List Pair,
      (pairs.map Item.pair).filterMap Item.declaration? = pairs.map Pair.declaration := by
    intro pairs
    rw [List.filterMap_map]
    exact congrFun List.filterMap_eq_map pairs
  have hblocks : ∀ pairs : List Pair, Item.blocks selector (pairs.map Item.pair) = [] := by
    intro pairs
    induction pairs with
    | nil => rfl
    | cons p pairs ih => rw [List.map_cons, Item.blocks, ih]; rfl
  show Block.mk _ _ _ = _
  rw [flat, hdeclarations]
  exact congrArg _ (hblocks pairs)

namespace Item

theorem map_declaration_pair? (items : List Item) :
    (items.filterMap pair?).map Pair.declaration = items.filterMap declaration? := by
  rw [List.map_filterMap]
  congr 1
  funext i
  cases i <;> rfl

theorem map_declaration_toPair (pairs : List InnerPair) :
    (pairs.map (·.toPair)).map Pair.declaration = pairs.map (·.declaration) := by
  rw [List.map_map]
  rfl

mutual

theorem blocks_unnested (parent : String) (i : Item) :
    (i.unnested parent).blocks = Block.flattened (i.block? parent).toList := by
  match i with
  | .pair p => exact Block.flattened_nil.symm
  | .nested head equals opening items closing comma =>
    show Statement.block _ :: Document.blocks (unnestedAll (head.resolve parent) items) = Block.flattened [_]
    rw [Block.flattened_cons, Block.flattened_nil, List.append_nil, Statement.block_flat, map_declaration_pair?,
      blocks_unnestedAll (head.resolve parent) items]
    rfl
  | .function key equals word opening closing pairs stop comma =>
    show [Statement.block _] = Block.flattened [_]
    rw [Block.flattened_cons, Block.flattened_nil, Statement.block_flat, map_declaration_toPair]
    rfl

theorem blocks_unnestedAll (parent : String) (is : List Item) :
    (unnestedAll parent is).blocks = Block.flattened (blocks parent is) := by
  match is with
  | [] => exact Block.flattened_nil.symm
  | i :: is =>
    rw [unnestedAll, blocks, Block.flattened_append, ← blocks_unnested parent i, ← blocks_unnestedAll parent is]
    exact List.map_append

end

end Item

theorem Statement.blocks_unnested (s : Statement) : s.unnested.blocks = Block.flattened [s.block] := by
  show Statement.block _ :: Document.blocks (Item.unnestedAll s.head.selector s.items) = _
  rw [Block.flattened_cons, Block.flattened_nil, List.append_nil, block_flat, Item.map_declaration_pair?,
    Item.blocks_unnestedAll]
  rfl

/-- **Without nesting, the blocks of a document stand side by side**, in pre-order. -/
theorem Document.blocks_unnested (d : Document) : d.unnested.blocks = Block.flattened d.blocks := by
  induction d with
  | nil => exact Block.flattened_nil.symm
  | cons s d ih =>
    have hblocks : blocks (s :: d) = [s.block] ++ blocks d := rfl
    rw [hblocks, Block.flattened_append, ← s.blocks_unnested, ← ih]
    exact List.map_append

/-! ## The tokens of the document without nesting -/

/-- The tokens of a block without nesting are those of its pairs, and new ones that can be written. -/
theorem Statement.lexed_flat (selector : String) {pairs : List Pair} (h : ∀ p ∈ pairs, ∀ t ∈ p.tokens, t.Lexed) :
    ∀ t ∈ (flat selector pairs).tokens, t.Lexed := by
  have hbracket : (Mark.new "[").1.Lexed := ⟨"[", by decide +kernel⟩
  have hclose : (Mark.new "]").1.Lexed := ⟨"]", by decide +kernel⟩
  have hequals : (Mark.new "=").1.Lexed := ⟨"=", by decide +kernel⟩
  have hopening : (Mark.new "\x7b").1.Lexed := ⟨"\x7b", by decide +kernel⟩
  have hclosing : (Mark.new "\x7d").1.Lexed := ⟨"\x7d", by decide +kernel⟩
  have hpairs : ∀ t ∈ Item.tokensAll (pairs.map Item.pair), t.Lexed := by
    clear hbracket hclose hequals hopening hclosing
    induction pairs with
    | nil => exact List.forall_mem_nil _
    | cons p pairs ih =>
      obtain ⟨hp, hpairs⟩ := List.forall_mem_cons.1 h
      exact List.forall_mem_append.2 ⟨hp, ih hpairs⟩
  intro t ht
  simp only [tokens, flat, Head.tokens, List.cons_append, List.nil_append, List.mem_cons, List.mem_append,
    List.not_mem_nil, or_false] at ht
  rcases ht with rfl | rfl | rfl | rfl | rfl | ht | rfl
  · exact hbracket
  · exact Literal.lexed_new selector
  · exact hclose
  · exact hequals
  · exact hopening
  · exact hpairs t ht
  · exact hclosing

namespace Item

theorem lexed_pairs {items : List Item} (h : ∀ t ∈ tokensAll items, t.Lexed) :
    ∀ p ∈ items.filterMap pair?, ∀ t ∈ p.tokens, t.Lexed := by
  induction items with
  | nil => exact List.forall_mem_nil _
  | cons i items ih =>
    obtain ⟨hi, hitems⟩ := List.forall_mem_append.1 h
    cases i with
    | pair p => exact List.forall_mem_cons.2 ⟨hi, ih hitems⟩
    | nested => exact ih hitems
    | function => exact ih hitems

mutual

theorem lexed_unnested (parent : String) (i : Item) (h : ∀ t ∈ i.tokens, t.Lexed) :
    ∀ t ∈ (i.unnested parent).tokens, t.Lexed := by
  match i with
  | .pair p => exact List.forall_mem_nil _
  | .nested head equals opening items closing comma =>
    have hitems : ∀ t ∈ tokensAll items, t.Lexed := fun t ht => h t (by simp [tokens, ht])
    refine List.forall_mem_append.2 ⟨Statement.lexed_flat _ (lexed_pairs hitems), ?_⟩
    exact lexed_unnestedAll (head.resolve parent) items hitems
  | .function key equals word opening closing pairs stop comma =>
    have hpairs : ∀ p ∈ pairs, ∀ t ∈ p.tokens, t.Lexed := by
      intro p hp t ht
      refine h t ?_
      simp only [tokens, List.mem_cons, List.mem_append, List.mem_flatMap]
      exact .inr (.inr (.inr (.inr (.inr (.inl ⟨p, hp, ht⟩)))))
    refine List.forall_mem_append.2 ⟨Statement.lexed_flat _ (List.forall_mem_map.2 hpairs), ?_⟩
    exact List.forall_mem_nil _

theorem lexed_unnestedAll (parent : String) (is : List Item) (h : ∀ t ∈ tokensAll is, t.Lexed) :
    ∀ t ∈ (unnestedAll parent is).tokens, t.Lexed := by
  match is with
  | [] => exact List.forall_mem_nil _
  | i :: is =>
    obtain ⟨hi, his⟩ := List.forall_mem_append.1 h
    rw [unnestedAll, Document.tokens, List.flatMap_append]
    exact List.forall_mem_append.2 ⟨lexed_unnested parent i hi, lexed_unnestedAll parent is his⟩

end

end Item

theorem Document.lexed_unnested (d : Document) (h : ∀ t ∈ d.tokens, t.Lexed) : ∀ t ∈ d.unnested.tokens, t.Lexed := by
  induction d with
  | nil => exact List.forall_mem_nil _
  | cons s d ih =>
    obtain ⟨hs, hd⟩ := List.forall_mem_append.1 h
    have hitems : ∀ t ∈ Item.tokensAll s.items, t.Lexed := fun t ht => hs t (by simp [Statement.tokens, ht])
    have hflat := Statement.lexed_flat s.head.selector (Item.lexed_pairs hitems)
    have hinner := Item.lexed_unnestedAll s.head.selector s.items hitems
    rw [unnested, List.flatMap_cons, tokens, List.flatMap_append]
    exact List.forall_mem_append.2 ⟨List.forall_mem_append.2 ⟨hflat, hinner⟩, ih hd⟩

/-! ## Compiling the document without nesting -/

/-- A source with the tokens of a document, wherever they stand, compiles to the rules of its blocks. -/
theorem Document.compile_eq (d : Document) (hlexed : ∀ t ∈ d.tokens, t.Lexed) {source : String}
    (hsource : (Token.significant source).map Token.content = d.tokens.map Token.content) (options : Options) :
    compile options source = assemble options (Token.significant source).length d.blocks [] := by
  have hread := (d.thinned_tokens Expression.Apart).read_eq hlexed
  obtain ⟨hvalue, hnotes⟩ := NestedStyles.Document.read_of_content hsource
  rw [hread] at hvalue hnotes
  rw [compile, hvalue, List.map_eq_nil_iff.1 hnotes]
  rfl

/-- **Nesting can be written out.** Without nesting, the document has the same blocks side by side, in the order in
which the document opens them; it can be written as a source, and every such source compiles to the rules and the style
sheet of the document, without a diagnostic. An indent that is too wide for its rules is too wide for both. -/
theorem Document.compile_unnested (d : Document) {source : String} (hsource : Token.significant source = d.tokens) :
    d.unnested.blocks = (Block.preorderAll 0 d.blocks).map (fun entry => entry.2.alone) ∧
      (Token.significant (Token.print d.unnested.tokens)).map Token.content = d.unnested.tokens.map Token.content ∧
      ∀ flat : String, (Token.significant flat).map Token.content = d.unnested.tokens.map Token.content →
        ∀ options : Options,
          (Block.rules d.blocks = [] ∨ options.Fits → ∃ c c' : Compilation,
            compile options source = .ok c ∧ compile options flat = .ok c' ∧ c'.rules = c.rules ∧
              c'.stylesheet = c.stylesheet ∧ c.diagnostics = [] ∧ c'.diagnostics = []) ∧
          ∀ fault, compile options source = .error fault ↔ compile options flat = .error fault := by
  have hlexed : ∀ t ∈ d.tokens, t.Lexed := fun t ht => ⟨source, hsource ▸ ht⟩
  have hrules : Block.rules d.unnested.blocks = Block.rules d.blocks := by
    rw [d.blocks_unnested, Block.rules_flattened]
  refine ⟨d.blocks_unnested, ?_, fun flat hflat options => ?_⟩
  · rw [Token.map_content_significant]
    exact Token.contents_print (d.lexed_unnested hlexed)
  rw [d.compile_eq hlexed (congrArg _ hsource) options,
    d.unnested.compile_eq (d.lexed_unnested hlexed) hflat options]
  constructor
  · intro hfits
    refine ⟨_, _, assemble_eq_ok_iff.2 ⟨rfl, hfits⟩, assemble_eq_ok_iff.2 ⟨rfl, hrules ▸ hfits⟩, hrules, ?_, rfl, rfl⟩
    simp only [Compilation.written, hrules]
  · intro fault
    rw [assemble_eq_error_iff, assemble_eq_error_iff, hrules]

/-- The sample document without nesting. -/
theorem Document.compile_unnested_sample :
    Token.significant Sample.source = Sample.document.tokens ∧
      ∀ options : Options, options.Fits → ∃ c c' : Compilation, compile options Sample.source = .ok c ∧
        compile options ("[\"nav\"] = \x7b gap = 1px - a, \x7d [\"nav:hover\"] = \x7b top = 0, \x7d " ++
          "[\"nav a\"] = \x7b ink = color.hsl(1, 2, 3), \x7d") = .ok c' ∧
        c'.rules = c.rules ∧ c'.stylesheet = c.stylesheet ∧ c.diagnostics = [] ∧ c'.diagnostics = [] := by
  have hsource := Sample.tokens_document.symm
  refine ⟨hsource, fun options hfits => ?_⟩
  exact ((Document.compile_unnested Sample.document hsource).2.2 _ (by decide +kernel) options).1 (.inr hfits)

/-- A value that begins with a brace is a value inside a function only. Written out, it opens a block. -/
theorem compile_braced_value :
    (compile {} "a = \x7b hover = function() gap = \x7b0\x7d, end, \x7d").map (fun c => (c.rules, c.diagnostics)) =
        .ok ([⟨"a:hover", [⟨"gap", "\x7b0\x7d"⟩]⟩], []) ∧
      (compile {} "[\"a\"] = \x7b \x7d [\"a:hover\"] = \x7b gap = \x7b0\x7d, \x7d").map
        (fun c => (c.rules, c.diagnostics)) = .ok ([], []) := by
  decide +kernel

end Grammar

end NestedStyles
