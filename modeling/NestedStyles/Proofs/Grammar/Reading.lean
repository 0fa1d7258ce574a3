import NestedStyles.Proofs.Grammar

/-!
# Documents are read as the blocks they stand for

Each part of the grammar is read back from its tokens, with or without the commas that are not needed: it gives what
the part stands for, takes exactly its tokens, and records nothing.

- `Grammar.Expression.read_tokens`: expressions, up to where they end.
- `Grammar.Pair.read_bare`, `Grammar.InnerPair.ThinnedAll.readAll_eq`: pairs, in a block and in a function.
- `Grammar.Item.run_thinned`, `Grammar.Item.run_thinnedAll`: entries, on the stack of open blocks.
- `Grammar.Document.read_eq_blocks`: documents.
-/

namespace NestedStyles

namespace Grammar

/-! ## Tokens of a known kind -/

theorem Word.isIdentifier {name : String} (w : Word name) : w.1.isIdentifier = true := by
  simp [Token.isIdentifier, (Token.isNamed_iff.1 w.2).1]

/-! ## Expressions -/

/-- A call with all its marks gives the color of its name and arguments, and only what there is to say about it. -/
theorem call_eq_build (word : Token) (dot : Mark ".") (name : Token) (opening : Mark "(") {inside : List Token}
    (hinside : inside.all (fun t => !t.isMark ")") = true) (closing : Mark ")") (rest : List Token) :
    Color.call (word :: dot.1 :: name :: opening.1 :: (inside ++ closing.1 :: rest)) =
      ⟨(Color.build name.text (Color.arguments inside)).1, rest,
        (Color.build name.text (Color.arguments inside)).2.map (Diagnostic.about · (some name))⟩ := by
  have hall : ∀ t ∈ inside, (!t.isMark ")") = true := List.all_eq_true.1 hinside
  have hclosing : (!closing.1.isMark ")") = false := by simp [closing.2]
  have htake : (inside ++ closing.1 :: rest).takeWhile (fun t => !t.isMark ")") = inside := by
    rw [List.takeWhile_append_of_pos hall, List.takeWhile_cons_of_neg (by simp [hclosing]), List.append_nil]
  have hdrop : (inside ++ closing.1 :: rest).dropWhile (fun t => !t.isMark ")") = closing.1 :: rest := by
    rw [List.dropWhile_append_of_pos hall, List.dropWhile_cons_of_neg (by simp [hclosing])]
  simp [Color.call, expect_of_isMark dot.2, expect_of_isMark opening.2, htake, hdrop, expect_of_isMark closing.2]

theorem ColorCall.read_tokens (c : ColorCall) (rest : List Token) :
    Color.call (c.word.1 :: c.dot.1 :: c.name.1 :: c.opening.1 :: (c.inside ++ c.closing.1 :: rest)) =
      ⟨.ok c.text, rest, []⟩ := by
  rw [call_eq_build _ _ _ _ c.inside_ne, Color.build_eq_ok_iff.2 c.denotes, Color.build_problems, c.remarks_eq,
    List.map_nil]

/-- Whether the first token stops a value. -/
def nextStops : List Token → Bool
  | [] => false
  | u :: rest => Value.stops u rest

theorem nextStops_key (key : Name) (equals : Mark "=") (rest : List Token) :
    nextStops (key.1 :: equals.1 :: rest) = true := by
  simp [nextStops, Value.stops, key.2, nextIsMark, equals.2]

/-- Tokens behind an expression that it does not run on into: they stop a plain value, and if that ends with a sign,
they begin no operand. -/
def Expression.EndsBefore : Expression → List Token → Prop
  | .plain v, rest =>
    nextStops rest = true ∧ ((Expression.plain v).endsInSign = true → rest.head?.any Value.startsOperand = false)
  | .color _, _ => True

theorem Expression.endsBefore_comma (v : Expression) (comma : Mark ",") (rest : List Token) :
    v.EndsBefore (comma.1 :: rest) := by
  cases v with
  | plain v =>
    exact ⟨by simp [nextStops, Value.stops, comma.2], fun _ => Value.startsOperand_of_isMark comma.2 (by decide)⟩
  | color c => trivial

theorem Expression.endsBefore_of_nextStops (v : Expression) (hsign : v.endsInSign = false) {rest : List Token}
    (hstops : nextStops rest = true) : v.EndsBefore rest := by
  cases v with
  | plain v => exact ⟨hstops, fun h => absurd h (by simp [hsign])⟩
  | color c => trivial

/-- A plain value is read together with all that it runs on into. -/
theorem Plain.read_append (v : Plain) {rest : List Token} (hequals : nextIsMark rest "=" = false)
    (hbrace : nextIsMark rest "\x7b" = false) (hdot : nextIsMark rest "." = false)
    (hlexed : ∀ t ∈ v.first :: v.more ++ (Value.span {} rest).1, t.Lexed) :
    Value.read (v.first :: v.more ++ rest) =
      ⟨.ok (Value.join (Value.span {} rest).2.head? (v.first :: v.more ++ (Value.span {} rest).1)),
        (Value.span {} rest).2, []⟩ := by
  have hspan := Value.span_unbroken v.unbroken hequals
  have hcolor : (v.first.isNamed "color" && nextIsMark (v.more ++ rest) ".") = false := by
    rw [Value.nextIsMark_append hdot]
    exact v.not_color
  have habsent : Value.isAbsent v.first (v.more ++ rest) = false := by
    rw [Value.isAbsent, Value.nextIsMark_append hequals, Value.nextIsMark_append hbrace, v.not_key, v.isNamed_end,
      v.isNamed_function]
    rfl
  rw [List.cons_append] at hspan ⊢
  rw [Value.read_eq_join hcolor habsent (by rwa [hspan]), hspan]

theorem Plain.read_tokens (v : Plain) (hlexed : ∀ t ∈ v.first :: v.more, t.Lexed) {rest : List Token}
    (hends : (Expression.plain v).EndsBefore rest) :
    Value.read (v.first :: v.more ++ rest) = ⟨.ok (Value.join none (v.first :: v.more)), rest, []⟩ := by
  obtain ⟨hstops, hsign⟩ := hends
  cases rest with
  | nil => cases hstops
  | cons u rest =>
    have hmark : ∀ mark, mark ≠ "," → mark ≠ "\x7d" → nextIsMark (u :: rest) mark = false := fun _ =>
      Value.nextIsMark_of_stops hstops
    have hspan : Value.span {} (u :: rest) = ([], u :: rest) := Value.span_of_stops hstops
    have hbeyond : ∀ t ∈ (v.first :: v.more).getLast?, ∀ previous, Value.isBinarySign previous t (some u) = false := by
      intro t ht previous
      cases hlast : Value.isSign t with
      | false => simp [Value.isBinarySign, hlast]
      | true =>
        have hstart := hsign (by rw [Expression.endsInSign, Option.mem_def.1 ht, Option.any_some, hlast])
        rw [List.head?_cons] at hstart
        rw [Value.isBinarySign, hstart, Bool.and_false]
    rw [v.read_append (hmark "=" (by decide) (by decide)) (hmark "\x7b" (by decide) (by decide))
      (hmark "." (by decide) (by decide)) (by rwa [hspan, List.append_nil]), hspan, List.append_nil, List.head?_cons,
      Value.join_beyond hbeyond]

namespace Expression

/-- A value that begins like a color call is one. -/
theorem read_call (word : Word "color") (dot : Mark ".") (ts : List Token) :
    Value.read (word.1 :: dot.1 :: ts) = Color.call (word.1 :: dot.1 :: ts) := by
  refine if_pos ?_
  simp [word.2, nextIsMark, dot.2]

/-- **An expression is read back** from its tokens, up to where it ends. -/
theorem read_tokens (v : Expression) (hlexed : ∀ t ∈ v.tokens, t.Lexed) {rest : List Token}
    (hends : v.EndsBefore rest) : Value.read (v.tokens ++ rest) = ⟨.ok v.text, rest, []⟩ := by
  cases v with
  | plain v => exact v.read_tokens hlexed hends
  | color c =>
    show Value.read (c.word.1 :: c.dot.1 :: _) = _
    rw [read_call]
    simpa [tokens, text] using c.read_tokens rest

theorem text_ne_empty (v : Expression) (hlexed : ∀ t ∈ v.tokens, t.Lexed) : v.text ≠ "" := by
  cases v with
  | plain v =>
    intro h
    refine (Value.join_tight hlexed none).ne_nil ?_
    simpa [text] using h
  | color c => exact c.denotes.ne_empty

/-- An expression begins neither a function nor a block. -/
theorem head_tokens (v : Expression) (rest : List Token) :
    nextIsNamed (v.tokens ++ rest) "function" = false ∧ nextIsMark (v.tokens ++ rest) "\x7b" = false := by
  cases v with
  | plain v => exact ⟨v.isNamed_function, v.isMark_brace⟩
  | color c =>
    exact ⟨Token.isNamed_of_ne c.word.2 (by decide), Token.isMark_of_isIdentifier (Word.isIdentifier c.word) _⟩

end Expression

/-! ## Entries -/

/-- The pair of a key with the text that was read for it. -/
theorem Pair.ofPair?_eq (p : Pair) (hlexed : ∀ t ∈ p.value.tokens, t.Lexed) :
    Declaration.ofPair? p.key.1.text p.value.text = some p.declaration :=
  if_neg (p.value.text_ne_empty hlexed)

theorem Pair.mem_bare {p : Pair} {t : Token} (h : t ∈ p.value.tokens) : t ∈ p.bare := by
  simp [Pair.bare, h]

/-- A key and an equals sign before what is read as a value. -/
theorem Pair.read_of_value (parent : String) (p : Pair) {rest left : List Token} {text : String}
    (hread : Value.read (p.value.tokens ++ rest) = ⟨.ok text, left, []⟩) (htext : text ≠ "") :
    Entry.read parent p.key.1 (p.equals.1 :: (p.value.tokens ++ rest)) =
      ⟨.ok (.declaration ⟨Selector.hyphenate p.key.1.text, text⟩), skipComma left, []⟩ := by
  obtain ⟨hfunction, hbrace⟩ := p.value.head_tokens rest
  have hequals : nextIsMark (p.equals.1 :: (p.value.tokens ++ rest)) "=" = true := p.equals.2
  rw [Entry.read, if_neg (by simp [Token.isMark_of_isIdentifier p.key.2]), if_neg (by simp [p.key.2]),
    if_neg (by simp [hequals]), if_neg (by simp [hfunction]), if_neg (by simp [hbrace]), List.tail_cons,
    hread, Parsed.andThen_of_ok rfl]
  simp [Declaration.ofPair?, htext, Parsed.after]

/-- **A pair is read back** with the comma behind it, if there is one. -/
theorem Pair.read_bare (parent : String) (p : Pair) (hlexed : ∀ t ∈ p.bare, t.Lexed) {rest : List Token}
    (hends : p.value.EndsBefore rest) :
    Entry.read parent p.key.1 (p.equals.1 :: (p.value.tokens ++ rest)) =
      ⟨.ok (.declaration p.declaration), skipComma rest, []⟩ := by
  have hvalue : ∀ t ∈ p.value.tokens, t.Lexed := fun t ht => hlexed t (Pair.mem_bare ht)
  exact p.read_of_value parent (p.value.read_tokens hvalue hends) (p.value.text_ne_empty hvalue)

namespace InnerPair

theorem readAll_bare (p : InnerPair) (hlexed : ∀ t ∈ p.bare, t.Lexed) {rest : List Token}
    (hends : p.value.EndsBefore rest) :
    Declaration.readAll (p.bare ++ rest) =
      (Declaration.readAll (skipComma rest)).map (Except.map (p.declaration :: ·)) := by
  have hvalue : ∀ t ∈ p.value.tokens, t.Lexed := fun t ht => hlexed t (Pair.mem_bare ht)
  have hequals : ∀ ts, nextIsMark (p.equals.1 :: ts) "=" = true := fun _ => p.equals.2
  rw [Pair.bare, List.cons_append, List.cons_append, Declaration.readAll_cons, if_neg (by simp [p.isNamed_end]),
    if_neg (by simp [p.key.2]), if_neg (by simp [hequals]), List.tail_cons, p.value.read_tokens hvalue hends,
    Parsed.andThen_of_ok rfl, p.ofPair?_eq hvalue]
  rfl

variable {pairs : List InnerPair} {ts : List Token}

theorem ThinnedAll.nextStops (h : ThinnedAll pairs ts) (stop : Word "end") (rest : List Token) :
    Grammar.nextStops (ts ++ stop.1 :: rest) = true := by
  cases h with
  | nil => simp [Grammar.nextStops, Value.stops, stop.2]
  | keep p hps => exact nextStops_key p.key p.equals _
  | drop p hsign hps => exact nextStops_key p.key p.equals _

theorem ThinnedAll.skipComma_eq (h : ThinnedAll pairs ts) (stop : Word "end") (rest : List Token) :
    skipComma (ts ++ stop.1 :: rest) = ts ++ stop.1 :: rest := by
  refine if_neg ?_
  cases h with
  | nil => simp [nextIsMark, Token.isMark_of_isIdentifier (Word.isIdentifier stop)]
  | keep p hps => simp [Pair.bare, nextIsMark, Token.isMark_of_isIdentifier p.key.2]
  | drop p hsign hps => simp [Pair.bare, nextIsMark, Token.isMark_of_isIdentifier p.key.2]

/-- **The pairs of a function are read back** up to its end. -/
theorem ThinnedAll.readAll_eq (h : ThinnedAll pairs ts) (hlexed : ∀ t ∈ ts, t.Lexed) (stop : Word "end")
    (rest : List Token) :
    Declaration.readAll (ts ++ stop.1 :: rest) = ⟨.ok (pairs.map (·.declaration)), stop.1 :: rest, []⟩ := by
  induction h with
  | nil => rw [List.nil_append, Declaration.readAll, if_pos stop.2, List.map_nil]
  | @keep ps ts p hps ih =>
    have hp : ∀ t ∈ p.bare, t.Lexed := fun t ht => hlexed t (List.mem_append_left _ ht)
    have hts : ∀ t ∈ ts, t.Lexed := fun t ht => hlexed t (List.mem_append_right _ (List.mem_cons_of_mem _ ht))
    rw [List.append_assoc, List.cons_append, p.readAll_bare hp (p.value.endsBefore_comma p.comma _),
      skipComma_of_isMark p.comma.2, ih hts]
    rfl
  | @drop ps ts p hsign hps ih =>
    have hp : ∀ t ∈ p.bare, t.Lexed := fun t ht => hlexed t (List.mem_append_left _ ht)
    have hts : ∀ t ∈ ts, t.Lexed := fun t ht => hlexed t (List.mem_append_right _ ht)
    rw [List.append_assoc, p.readAll_bare hp (p.value.endsBefore_of_nextStops hsign (hps.nextStops stop rest)),
      hps.skipComma_eq, ih hts]
    rfl

theorem thinnedAll_tokens (pairs : List InnerPair) : ThinnedAll pairs (pairs.flatMap (·.tokens)) := by
  induction pairs with
  | nil => exact .nil
  | cons p pairs ih =>
    have hshape : (p :: pairs).flatMap (·.tokens) = p.bare ++ p.comma.1 :: pairs.flatMap (·.tokens) := by
      simp [Pair.tokens, Pair.bare]
    exact hshape ▸ .keep p ih

end InnerPair

theorem readFunction_eq {pairs : List InnerPair} {ts : List Token} (h : InnerPair.ThinnedAll pairs ts)
    (hlexed : ∀ t ∈ ts, t.Lexed) (word : Word "function") (opening : Mark "(") (closing : Mark ")")
    (stop : Word "end") (rest : List Token) :
    Declaration.readFunction (word.1 :: opening.1 :: closing.1 :: (ts ++ stop.1 :: rest)) =
      ⟨.ok (pairs.map (·.declaration)), rest, []⟩ := by
  simp [Declaration.readFunction, expect_of_isNamed word.2, expect_of_isMark opening.2, expect_of_isMark closing.2,
    h.readAll_eq hlexed stop rest, Parsed.andThen, expect_of_isNamed stop.2, Parsed.after, Parsed.map]

/-- A pseudo key with a function is read as a block without entries of its own. -/
theorem read_function {pairs : List InnerPair} {ts : List Token} (h : InnerPair.ThinnedAll pairs ts)
    (hlexed : ∀ t ∈ ts, t.Lexed) (parent : String) (key : { t : Name // Selector.isPseudo t.1.text = true })
    (equals : Mark "=") (word : Word "function") (opening : Mark "(") (closing : Mark ")") (stop : Word "end")
    (rest : List Token) :
    Entry.read parent key.1.1 (equals.1 :: word.1 :: opening.1 :: closing.1 :: (ts ++ stop.1 :: rest)) =
      ⟨.ok (.nested ⟨Selector.pseudo parent key.1.1.text, pairs.map (·.declaration), []⟩), skipComma rest, []⟩ := by
  have hequals : ∀ ts, nextIsMark (equals.1 :: ts) "=" = true := fun _ => equals.2
  have hword : ∀ ts, nextIsNamed (word.1 :: ts) "function" = true := fun _ => word.2
  rw [Entry.read, if_neg (by simp [Token.isMark_of_isIdentifier key.1.2]), if_neg (by simp [key.1.2]),
    if_neg (by simp [hequals]), List.tail_cons, if_pos (by simp [key.2, hword]),
    readFunction_eq h hlexed word opening closing stop rest, Parsed.andThen_of_ok rfl]
  simp [Parsed.after]

/-- The head of a nested block announces the block. -/
theorem Head.read_tokens (parent : String) (head : Head) (equals : Mark "=") (opening : Mark "\x7b")
    (rest : List Token) :
    ∃ t ts, head.tokens ++ equals.1 :: opening.1 :: rest = t :: ts ∧ t.isMark "\x7d" = false ∧
      Entry.read parent t ts = ⟨.ok (.opening (head.resolve parent)), opening.1 :: rest, []⟩ := by
  have hequals : ∀ ts, nextIsMark (equals.1 :: ts) "=" = true := fun _ => equals.2
  have hopening : ∀ ts, nextIsMark (opening.1 :: ts) "\x7b" = true := fun _ => opening.2
  cases head with
  | name key =>
    refine ⟨key.1, equals.1 :: opening.1 :: rest, rfl, Token.isMark_of_isIdentifier key.2 _, ?_⟩
    have hfunction : nextIsNamed (opening.1 :: rest) "function" = false := by
      simp [nextIsNamed, Token.isNamed, (Token.isMark_iff.1 opening.2).1]
    rw [Entry.read, if_neg (by simp [Token.isMark_of_isIdentifier key.2]), if_neg (by simp [key.2]),
      if_neg (by simp [hequals]), List.tail_cons, if_neg (by simp [hfunction]), if_pos (hopening rest), Head.resolve]
  | bracketed bracket literal closing =>
    refine ⟨bracket.1, literal.1 :: closing.1 :: equals.1 :: opening.1 :: rest, rfl,
      Token.isMark_of_ne bracket.2 (by decide), ?_⟩
    simp [Entry.read, bracket.2, bracketedSelector, Parsed.map, literal.2, expect_of_isMark closing.2,
      expect_of_isMark equals.2, hopening, Head.resolve]

end Grammar

/-! ## Rounds without a mistake -/

/-- A frame with more declarations and blocks behind those it has. -/
def Frame.collect (f : Frame) (ds : List Declaration) (bs : List Block) : Frame :=
  ⟨f.selector, f.declarations ++ ds.toArray, f.children ++ bs.toArray⟩

theorem Frame.collect_nil (f : Frame) : f.collect [] [] = f := by
  simp [Frame.collect]

theorem Frame.collect_collect (f : Frame) (ds ds' : List Declaration) (bs bs' : List Block) :
    (f.collect ds bs).collect ds' bs' = f.collect (ds ++ ds') (bs ++ bs') := by
  simp [Frame.collect]

namespace Nesting

variable {top : Frame} {below : List Frame} {t : Token} {ts rest : List Token} {notes : Array Diagnostic}

theorem run_declaration {d : Declaration} (ht : t.isMark "\x7d" = false)
    (hread : Entry.read top.selector t ts = ⟨.ok (.declaration d), rest, []⟩) :
    run ⟨top, below, t :: ts, notes⟩ = run ⟨top.collect [d] [], below, rest, notes⟩ := by
  refine run_of_more ?_
  simp [step, ht, hread, absorb, Frame.add, Frame.collect]

theorem run_nested {b : Block} (ht : t.isMark "\x7d" = false)
    (hread : Entry.read top.selector t ts = ⟨.ok (.nested b), rest, []⟩) :
    run ⟨top, below, t :: ts, notes⟩ = run ⟨top.collect [] [b], below, rest, notes⟩ := by
  refine run_of_more ?_
  simp [step, ht, hread, absorb, Frame.add, Frame.adopt, Frame.collect]

theorem run_opening {inner : String} {brace : Token} (hbrace : brace.isMark "\x7b" = true)
    (ht : t.isMark "\x7d" = false)
    (hread : Entry.read top.selector t ts = ⟨.ok (.opening inner), brace :: rest, []⟩) :
    run ⟨top, below, t :: ts, notes⟩ = run ⟨{ selector := inner }, top :: below, rest, notes⟩ := by
  refine run_of_more ?_
  simp [step, ht, hread, absorb, expect_of_isMark hbrace]

theorem run_closing {f : Frame} {brace : Token} (hbrace : brace.isMark "\x7d" = true) :
    run ⟨top, f :: below, brace :: rest, notes⟩ = run ⟨f.collect [] [top.toBlock], below, skipComma rest, notes⟩ := by
  refine run_of_more ?_
  simp [step, hbrace, close, expect_of_isMark hbrace, Frame.adopt, Frame.collect]

theorem run_last {brace : Token} (hbrace : brace.isMark "\x7d" = true) :
    run ⟨top, [], brace :: rest, notes⟩ = ⟨.ok top.toBlock, rest, notes.toList⟩ := by
  refine run_of_done ?_
  simp [step, hbrace, close, expect_of_isMark hbrace]

end Nesting

namespace Grammar

/-- The head of a nested block opens a frame of its own. -/
theorem Head.run_tokens (head : Head) (equals : Mark "=") (opening : Mark "\x7b") (rest : List Token) (top : Frame)
    (below : List Frame) (notes : Array Diagnostic) :
    Nesting.run ⟨top, below, head.tokens ++ equals.1 :: opening.1 :: rest, notes⟩ =
      Nesting.run ⟨{ selector := head.resolve top.selector }, top :: below, rest, notes⟩ := by
  obtain ⟨t, ts, hshape, hbrace, hread⟩ := head.read_tokens top.selector equals opening rest
  rw [hshape, Nesting.run_opening opening.2 hbrace hread]

namespace Item

variable {may : Expression → Option Head → Prop} {i : Item} {is : List Item} {ts : List Token}

/-! ### Where entries begin -/

theorem Thinned.nextIsMark_comma (h : Thinned may i ts) (rest : List Token) : nextIsMark (ts ++ rest) "," = false := by
  cases h with
  | pair p => exact Token.isMark_of_isIdentifier p.key.2 _
  | nested head =>
    cases head with
    | name key => exact Token.isMark_of_isIdentifier key.2 _
    | bracketed bracket => exact Token.isMark_of_ne bracket.2 (by decide)
  | function key => exact Token.isMark_of_isIdentifier key.1.2 _

/-- An entry that does not begin with a bracket begins with a key, which stops the value before it. -/
theorem Thinned.nextStops (h : Thinned may i ts) {v : Plain} (hapart : (Expression.plain v).Apart (head? (i :: is)))
    (rest : List Token) : Grammar.nextStops (ts ++ rest) = true := by
  cases h with
  | pair p => exact nextStops_key p.key p.equals _
  | nested head equals =>
    cases head with
    | name key => exact nextStops_key key equals _
    | bracketed => exact hapart.elim
  | function key equals => exact nextStops_key key.1 equals _

theorem ThinnedAll.skipComma_eq (h : ThinnedAll may is ts) (closing : Mark "\x7d") (rest : List Token) :
    skipComma (ts ++ closing.1 :: rest) = ts ++ closing.1 :: rest := by
  refine if_neg (Bool.not_eq_true _ ▸ ?_)
  cases h with
  | nil => exact Token.isMark_of_ne closing.2 (by decide)
  | keep hi his => exact List.append_assoc .. ▸ hi.nextIsMark_comma _
  | drop hmay hi his => exact List.append_assoc .. ▸ hi.nextIsMark_comma _

/-- A value that is told apart from the entries behind it ends before them. -/
theorem ThinnedAll.endsBefore (h : ThinnedAll may is ts) {v : Expression} (hsign : v.endsInSign = false)
    (hapart : v.Apart (head? is)) (closing : Mark "\x7d") (rest : List Token) :
    v.EndsBefore (ts ++ closing.1 :: rest) := by
  cases v with
  | color c => trivial
  | plain v =>
    refine (Expression.plain v).endsBefore_of_nextStops hsign ?_
    cases h with
    | nil => simp [Grammar.nextStops, Value.stops, closing.2]
    | keep hi his => exact List.append_assoc .. ▸ hi.nextStops hapart _
    | drop hmay hi his => exact List.append_assoc .. ▸ hi.nextStops hapart _

/-! ### Entries on the stack -/

/-- Tokens behind an entry that it does not run on into. -/
def EndsBefore : Item → List Token → Prop
  | .pair p, rest => p.value.EndsBefore rest
  | .nested .., _ => True
  | .function .., _ => True

theorem endsBefore_comma (i : Item) (comma : Mark ",") (rest : List Token) : i.EndsBefore (comma.1 :: rest) := by
  cases i with
  | pair p => exact p.value.endsBefore_comma comma rest
  | nested => trivial
  | function => trivial

theorem ThinnedAll.endsBefore_of_mayDrop (h : ThinnedAll may is ts) (hmay : i.MayDrop Expression.Apart (head? is))
    (closing : Mark "\x7d") (rest : List Token) : i.EndsBefore (ts ++ closing.1 :: rest) := by
  cases i with
  | pair p => exact h.endsBefore hmay.1 hmay.2 closing rest
  | nested => trivial
  | function => trivial

/-- What one entry and those behind it give, in one go. -/
theorem collect_cons (f : Frame) (i : Item) (is : List Item) :
    (f.collect i.declaration?.toList (i.block? f.selector).toList).collect (is.filterMap declaration?)
      (blocks f.selector is) = f.collect ((i :: is).filterMap declaration?) (blocks f.selector (i :: is)) := by
  rw [Frame.collect_collect, blocks]
  cases hd : i.declaration? with
  | none => simp [hd]
  | some d => simp [hd]

mutual

/-- **An entry on the stack**: the innermost block collects what the entry stands for, and no frame below is touched.
An entry that is a block goes through a frame of its own. -/
theorem run_thinned {i : Item} {ts : List Token} (h : Thinned Expression.Apart i ts) (hlexed : ∀ t ∈ ts, t.Lexed)
    {rest : List Token} (hends : i.EndsBefore rest) (top : Frame) (below : List Frame) (notes : Array Diagnostic) :
    Nesting.run ⟨top, below, ts ++ rest, notes⟩ =
      Nesting.run ⟨top.collect i.declaration?.toList (i.block? top.selector).toList, below, skipComma rest, notes⟩ := by
  match h with
  | .pair p =>
    rw [Pair.bare, List.cons_append, List.cons_append, Nesting.run_declaration (Token.isMark_of_isIdentifier p.key.2 _)
      (p.read_bare top.selector hlexed hends)]
    rfl
  | @Thinned.nested _ _ ts head equals opening hitems closing comma =>
    have hts : ∀ t ∈ ts, t.Lexed := fun t ht => hlexed t (by simp [ht])
    have hshape : head.tokens ++ equals.1 :: opening.1 :: (ts ++ [closing.1]) ++ rest =
        head.tokens ++ equals.1 :: opening.1 :: (ts ++ closing.1 :: rest) := by
      simp
    rw [hshape, head.run_tokens, run_thinnedAll hitems hts, Nesting.run_closing closing.2]
    simp [declaration?, block?, Frame.collect, Frame.toBlock]
  | @Thinned.function _ _ ts key equals word opening closing hpairs stop comma =>
    have hts : ∀ t ∈ ts, t.Lexed := fun t ht => hlexed t (by simp [ht])
    have hshape : key.1.1 :: equals.1 :: word.1 :: opening.1 :: closing.1 :: (ts ++ [stop.1]) ++ rest =
        key.1.1 :: equals.1 :: word.1 :: opening.1 :: closing.1 :: (ts ++ stop.1 :: rest) := by
      simp
    rw [hshape, Nesting.run_nested (Token.isMark_of_isIdentifier key.1.2 _)
      (read_function hpairs hts top.selector key equals word opening closing stop rest)]
    rfl

theorem run_thinnedAll {is : List Item} {ts : List Token} (h : ThinnedAll Expression.Apart is ts)
    (hlexed : ∀ t ∈ ts, t.Lexed) (closing : Mark "\x7d") (rest : List Token) (top : Frame) (below : List Frame)
    (notes : Array Diagnostic) :
    Nesting.run ⟨top, below, ts ++ closing.1 :: rest, notes⟩ =
      Nesting.run ⟨top.collect (is.filterMap declaration?) (blocks top.selector is), below, closing.1 :: rest,
        notes⟩ := by
  match h with
  | .nil => rw [blocks, List.filterMap_nil, Frame.collect_nil, List.nil_append]
  | @ThinnedAll.keep _ i _ ts us hi his =>
    have hts : ∀ t ∈ ts, t.Lexed := fun t ht => hlexed t (List.mem_append_left _ ht)
    have hus : ∀ t ∈ us, t.Lexed := fun t ht => hlexed t (List.mem_append_right _ (List.mem_cons_of_mem _ ht))
    rw [List.append_assoc, List.cons_append, run_thinned hi hts (i.endsBefore_comma i.comma _),
      skipComma_of_isMark i.comma.2, run_thinnedAll his hus, ← collect_cons]
    rfl
  | @ThinnedAll.drop _ _ _ ts us hmay hi his =>
    have hts : ∀ t ∈ ts, t.Lexed := fun t ht => hlexed t (List.mem_append_left _ ht)
    have hus : ∀ t ∈ us, t.Lexed := fun t ht => hlexed t (List.mem_append_right _ ht)
    rw [List.append_assoc, run_thinned hi hts (his.endsBefore_of_mayDrop hmay closing rest), his.skipComma_eq,
      run_thinnedAll his hus, ← collect_cons]
    rfl

end

/-! ### All commas in their places -/

mutual

theorem exists_thinned (may : Expression → Option Head → Prop) (i : Item) :
    ∃ ts, Thinned may i ts ∧ i.tokens = ts ++ [i.comma.1] := by
  match i with
  | .pair p => exact ⟨p.bare, .pair p, rfl⟩
  | .nested head equals opening items closing comma =>
    refine ⟨_, .nested head equals opening (thinnedAll_tokensAll may items) closing comma, ?_⟩
    simp [tokens, Item.comma]
  | .function key equals word opening closing pairs stop comma =>
    refine ⟨_, .function key equals word opening closing (InnerPair.thinnedAll_tokens pairs) stop comma, ?_⟩
    simp [tokens, Item.comma]

theorem thinnedAll_tokensAll (may : Expression → Option Head → Prop) (is : List Item) :
    ThinnedAll may is (tokensAll is) := by
  match is with
  | [] => exact .nil
  | i :: is =>
    obtain ⟨ts, hi, htokens⟩ := exists_thinned may i
    rw [tokensAll, htokens, List.append_assoc]
    exact .keep hi (thinnedAll_tokensAll may is)

end

theorem run_tokens (i : Item) (hlexed : ∀ t ∈ i.tokens, t.Lexed) (top : Frame) (below : List Frame)
    (rest : List Token) (notes : Array Diagnostic) :
    Nesting.run ⟨top, below, i.tokens ++ rest, notes⟩ =
      Nesting.run ⟨top.collect i.declaration?.toList (i.block? top.selector).toList, below, rest, notes⟩ := by
  obtain ⟨ts, hi, htokens⟩ := exists_thinned Expression.Apart i
  have hts : ∀ t ∈ ts, t.Lexed := fun t ht => hlexed t (htokens ▸ List.mem_append_left _ ht)
  rw [htokens, List.append_assoc, List.singleton_append, run_thinned hi hts (i.endsBefore_comma i.comma rest),
    skipComma_of_isMark i.comma.2]

theorem run_tokensAll (is : List Item) (hlexed : ∀ t ∈ tokensAll is, t.Lexed) (top : Frame) (below : List Frame)
    (rest : List Token) (notes : Array Diagnostic) :
    Nesting.run ⟨top, below, tokensAll is ++ rest, notes⟩ =
      Nesting.run ⟨top.collect (is.filterMap declaration?) (blocks top.selector is), below, rest, notes⟩ := by
  induction is generalizing top with
  | nil => rw [tokensAll, blocks, List.filterMap_nil, Frame.collect_nil, List.nil_append]
  | cons i is ih =>
    obtain ⟨hi, his⟩ := List.forall_mem_append.1 hlexed
    rw [tokensAll, List.append_assoc, run_tokens i hi, ih his, ← collect_cons]
    rfl

end Item

/-! ## Documents -/

namespace Statement

/-- **An outermost block is read back** behind its head. -/
theorem read_block (s : Statement) {ts : List Token} (h : Item.ThinnedAll Expression.Apart s.items ts)
    (hlexed : ∀ t ∈ ts, t.Lexed) (rest : List Token) :
    Block.read s.head.selector (s.opening.1 :: (ts ++ s.closing.1 :: rest)) = ⟨.ok s.block, rest, []⟩ := by
  rw [Block.read, expect_of_isMark s.opening.2, Item.run_thinnedAll h hlexed, Nesting.run_last s.closing.2]
  simp [Frame.toBlock, Frame.collect, block]

/-- The selector of a head, outside all blocks. -/
theorem selector?_tokens (head : Head) (rest : List Token) :
    ∃ t ts, head.tokens ++ rest = t :: ts ∧ Document.selector? t ts = some ⟨head.selector, rest, []⟩ := by
  cases head with
  | name key => exact ⟨key.1, rest, rfl, if_pos key.2⟩
  | bracketed bracket literal closing =>
    refine ⟨bracket.1, literal.1 :: closing.1 :: rest, rfl, ?_⟩
    simp [Document.selector?, Token.isIdentifier_of_isMark bracket.2, bracket.2, bracketedSelector, literal.2,
      expect_of_isMark closing.2, Head.selector, Parsed.map]

theorem read_head (s : Statement) (rest : List Token) :
    Document.read (s.head.tokens ++ s.equals.1 :: s.opening.1 :: rest) =
      Document.readFrom s.head.selector (s.opening.1 :: rest) := by
  obtain ⟨t, ts, hshape, hselector⟩ := selector?_tokens s.head (s.equals.1 :: s.opening.1 :: rest)
  have hequals : ∀ ts, nextIsMark (s.equals.1 :: ts) "=" = true := fun _ => s.equals.2
  have hopening : ∀ ts, nextIsMark (s.opening.1 :: ts) "\x7b" = true := fun _ => s.opening.2
  rw [hshape, Document.read_of_some hselector, if_neg (by simp [hequals]), List.tail_cons, if_neg (by simp [hopening])]
  rfl

theorem Thinned.read_eq {s : Statement} {ts : List Token} (h : s.Thinned Expression.Apart ts)
    (hlexed : ∀ t ∈ ts, t.Lexed) (rest : List Token) :
    Document.read (ts ++ rest) = (Document.read rest).map (Except.map (s.block :: ·)) := by
  obtain @⟨ts, hitems⟩ := h
  have hts : ∀ t ∈ ts, t.Lexed := fun t ht => hlexed t (by simp [ht])
  have hshape : s.head.tokens ++ s.equals.1 :: s.opening.1 :: (ts ++ [s.closing.1]) ++ rest =
      s.head.tokens ++ s.equals.1 :: s.opening.1 :: (ts ++ s.closing.1 :: rest) := by
    simp
  rw [hshape, s.read_head, Document.readFrom, s.read_block hitems hts rest, Parsed.andThen_of_ok rfl]
  rfl

theorem thinned_tokens (may : Expression → Option Head → Prop) (s : Statement) : s.Thinned may s.tokens :=
  .block (Item.thinnedAll_tokensAll may s.items)

theorem read_tokens (s : Statement) (hlexed : ∀ t ∈ s.tokens, t.Lexed) (rest : List Token) :
    Document.read (s.tokens ++ rest) = (Document.read rest).map (Except.map (s.block :: ·)) :=
  (s.thinned_tokens _).read_eq hlexed rest

end Statement

/-- **A well-formed document is read as the blocks it stands for**, to its end and without a diagnostic, however many
blocks it has and however deep they are nested. -/
theorem Document.read_eq_blocks (d : Document) (hlexed : ∀ t ∈ d.tokens, t.Lexed) :
    NestedStyles.Document.read d.tokens = ⟨.ok d.blocks, [], []⟩ := by
  induction d with
  | nil => rw [tokens, List.flatMap_nil, NestedStyles.Document.read, blocks, List.map_nil]
  | cons s d ih =>
    have hs : ∀ t ∈ s.tokens, t.Lexed := fun t ht => hlexed t (List.mem_append_left _ ht)
    have hd : ∀ t ∈ tokens d, t.Lexed := fun t ht => hlexed t (List.mem_append_right _ ht)
    rw [tokens, List.flatMap_cons, s.read_tokens hs, ← tokens, ih hd]
    rfl

/-! ### A document with every kind of entry -/

namespace Sample

def source : String :=
  "nav = \x7b gap = 1px - a, hover = function() top = 0, end, [\"& a\"] = \x7b ink = color.hsl(1, 2, 3), \x7d, \x7d"

def token (kind : Token.Kind) (text : String) (column : Nat) : Token := ⟨kind, text, "", ⟨1, column⟩⟩

def mark (m : String) (column : Nat) : Mark m := ⟨token .punctuation m column, by simp [token, Token.isMark]⟩

def word (name : String) (column : Nat) : Word name := ⟨token .identifier name column, by simp [token, Token.isNamed]⟩

def name (text : String) (column : Nat) : Name := ⟨token .identifier text column, rfl⟩

def length : Plain :=
  ⟨⟨.number, "1", "px", ⟨1, 15⟩⟩, [token .punctuation "-" 19, token .identifier "a" 21], by decide, by decide,
    by decide, by decide, by decide, by decide⟩

def numeral (text : String) (column : Nat) : Plain := ⟨token .number text column, [], rfl, rfl, rfl, rfl, rfl, rfl⟩

def ink : ColorCall :=
  ⟨word "color" 75, mark "." 80, name "hsl" 81, mark "(" 84,
    [token .number "1" 85, token .punctuation "," 86, token .number "2" 88, token .punctuation "," 89,
      token .number "3" 91], mark ")" 92, "hsl(" ++ "1" ++ ", " ++ "2" ++ "%, " ++ "3" ++ "%)", by decide,
    by decide +kernel, .hsl (by decide +kernel)⟩

def document : Document :=
  [⟨.name (name "nav" 1), mark "=" 5, mark "\x7b" 7,
    [.pair ⟨name "gap" 9, mark "=" 13, .plain length, mark "," 22⟩,
      .function ⟨name "hover" 24, by decide⟩ (mark "=" 30) (word "function" 32) (mark "(" 40) (mark ")" 41)
        [⟨⟨name "top" 43, mark "=" 47, .plain (numeral "0" 49), mark "," 50⟩, by decide⟩] (word "end" 52) (mark "," 55),
      .nested (.bracketed (mark "[" 57) ⟨token .literal "& a" 58, rfl⟩ (mark "]" 63)) (mark "=" 65) (mark "\x7b" 67)
        [.pair ⟨name "ink" 69, mark "=" 73, .color ink, mark "," 93⟩] (mark "\x7d" 95) (mark "," 96)],
    mark "\x7d" 98⟩]

theorem tokens_document : document.tokens = Token.significant source := by
  decide +kernel

end Sample

theorem Document.read_eq_blocks_sample :
    (∀ t ∈ Sample.document.tokens, t.Lexed) ∧
      NestedStyles.Document.read Sample.document.tokens =
        ⟨.ok [⟨"nav", [⟨"gap", "1px - a"⟩], [⟨"nav:hover", [⟨"top", "0"⟩], []⟩,
          ⟨"nav a", [⟨"ink", "hsl(1, 2%, 3%)"⟩], []⟩]⟩], [], []⟩ := by
  have hlexed : ∀ t ∈ Sample.document.tokens, t.Lexed := fun t ht => ⟨Sample.source, Sample.tokens_document ▸ ht⟩
  refine ⟨hlexed, (Document.read_eq_blocks Sample.document hlexed).trans ?_⟩
  decide +kernel

end Grammar

end NestedStyles
