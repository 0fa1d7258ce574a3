import NestedStyles.Proofs.Block.Growth
import NestedStyles.Proofs.Grammar.Reading
import NestedStyles.Proofs.Preliminaries

/-!
# Commas that may be left out

The comma behind an entry may be left out, since a value ends where the next key begins. There is one exception: a
bracket does not end a value, so a plain value without a comma runs on into a bracketed head behind it. Then the
document always stands for other blocks, or for none.

- `Grammar.Document.Thinned.sublist`: leaving commas out takes nothing else away.
- `Grammar.Item.ThinnedAll.apart_or_differ`: a comma that is missing before a bracketed head changes the result.
- `Grammar.Document.read_thinned`: the commas that may be left out are exactly the others.
-/

namespace NestedStyles

namespace Grammar

variable {may : Expression → Option Head → Prop}

/-! ## Only commas are left out -/

theorem InnerPair.ThinnedAll.sublist {pairs : List InnerPair} {ts : List Token} (h : ThinnedAll pairs ts) :
    ts.Sublist (pairs.flatMap (·.tokens)) := by
  induction h with
  | nil => exact .slnil
  | @keep ps ts p hps ih =>
    rw [List.flatMap_cons, Pair.tokens, ← List.singleton_append, ← List.append_assoc]
    exact (List.Sublist.refl (p.bare ++ [p.comma.1])).append ih
  | @drop ps ts p hsign hps ih =>
    rw [List.flatMap_cons]
    exact (List.sublist_append_left p.bare [p.comma.1]).append ih

namespace Item

mutual

theorem Thinned.sublist {i : Item} {ts : List Token} (h : Thinned may i ts) :
    (ts ++ [i.comma.1]).Sublist i.tokens := by
  match h with
  | .pair p => exact List.Sublist.refl (p.bare ++ [p.comma.1])
  | @Thinned.nested _ items ts head equals opening hitems closing comma =>
    rw [tokens, List.append_assoc, List.cons_append, List.cons_append, List.append_assoc]
    exact (((hitems.sublist.append_right _).cons_cons _).cons_cons _).append_left _
  | @Thinned.function _ pairs ts key equals word opening closing hpairs stop comma =>
    rw [tokens, List.cons_append, List.cons_append, List.cons_append, List.cons_append, List.cons_append,
      List.append_assoc]
    exact (((((hpairs.sublist.append_right _).cons_cons _).cons_cons _).cons_cons _).cons_cons _).cons_cons _

theorem ThinnedAll.sublist {is : List Item} {ts : List Token} (h : ThinnedAll may is ts) :
    ts.Sublist (tokensAll is) := by
  match h with
  | .nil => exact .slnil
  | @ThinnedAll.keep _ i is ts us hi his =>
    rw [tokensAll, ← List.singleton_append, ← List.append_assoc]
    exact hi.sublist.append his.sublist
  | @ThinnedAll.drop _ i is ts us hmay hi his =>
    rw [tokensAll]
    exact ((List.sublist_append_left ts [i.comma.1]).trans hi.sublist).append his.sublist

end

end Item

theorem Statement.Thinned.sublist {s : Statement} {ts : List Token} (h : s.Thinned may ts) :
    ts.Sublist s.tokens := by
  obtain ⟨hitems⟩ := h
  exact (((hitems.sublist.append_right _).cons_cons _).cons_cons _).append_left _

/-- **Nothing but commas is left out.** -/
theorem Document.Thinned.sublist {d : Document} {ts : List Token} (h : d.Thinned may ts) : ts.Sublist d.tokens := by
  induction h with
  | nil => exact .slnil
  | cons hs hd ih => exact hs.sublist.append ih

/-! ## A value that runs on -/

/-- A plain value without a comma takes the bracket behind it in, and so its text is another. -/
theorem Plain.read_bracket (v : Plain) (bracket : Mark "[") {rest : List Token}
    (hlexed : ∀ t ∈ v.first :: v.more ++ bracket.1 :: rest, t.Lexed) :
    ∃ text left, Value.read (v.first :: v.more ++ bracket.1 :: rest) = ⟨.ok text, left, []⟩ ∧ text ≠ "" ∧
      text ≠ Value.join none (v.first :: v.more) := by
  have hmark : ∀ mark, "[" ≠ mark → nextIsMark (bracket.1 :: rest) mark = false := fun _ =>
    Token.isMark_of_ne bracket.2
  obtain ⟨inside, left, hspan⟩ : ∃ inside left, Value.span {} (bracket.1 :: rest) = (bracket.1 :: inside, left) := by
    have hkind : bracket.1.kind = .punctuation := (Token.isMark_iff.1 bracket.2).1
    refine ⟨_, _, if_neg ?_⟩
    simp [Value.stops, Token.isMark_of_ne bracket.2, Token.isNamed, Token.isIdentifier, hkind]
  have hmem : ∀ t ∈ v.first :: v.more ++ (Value.span {} (bracket.1 :: rest)).1, t.Lexed := by
    intro t ht
    refine hlexed t ?_
    rw [← Value.span_append {} (bracket.1 :: rest), ← List.append_assoc]
    exact List.mem_append_left _ ht
  have hread := v.read_append (hmark "=" (by decide)) (hmark "\x7b" (by decide)) (hmark "." (by decide)) hmem
  rw [hspan] at hread hmem
  refine ⟨_, _, hread, ?_, ?_⟩
  · intro h
    exact (Value.join_tight hmem left.head?).ne_nil (by simpa using h)
  · -- a bracket begins no operand, so the value without it has the text that it has before a comma
    have hbeyond : ∀ t ∈ (v.first :: v.more).getLast?, ∀ previous,
        Value.isBinarySign previous t (some bracket.1) = false := by
      intro t ht previous
      simp [Value.isBinarySign, Value.startsOperand_of_isMark bracket.2]
    rw [← Value.join_beyond hbeyond]
    exact Value.join_append_ne (hlexed _ (by simp)) _ _ _ _

end Grammar

/-! ## Results that differ -/

/-- From equal open blocks, the two token lists never lead to the same block. -/
def Nesting.Differ (ts us : List Token) : Prop :=
  ∀ (top : Frame) (below : List Frame) (notes notes' : Array Diagnostic) (b : Block),
    (Nesting.run ⟨top, below, ts, notes⟩).value = .ok b → (Nesting.run ⟨top, below, us, notes'⟩).value ≠ .ok b

theorem Nesting.Differ.of_run {ts us ts' us' : List Token} (h : Differ ts' us') (after : Frame → Frame)
    (hts : ∀ top below notes, run ⟨top, below, ts, notes⟩ = run ⟨after top, below, ts', notes⟩)
    (hus : ∀ top below notes, run ⟨top, below, us, notes⟩ = run ⟨after top, below, us', notes⟩) : Differ ts us := by
  intro top below notes notes' b
  rw [hts, hus]
  exact h (after top) below notes notes' b

theorem Frame.eq_of_growsTo {f : Frame} {d d' : Declaration} {b : Block} (h : (f.collect [d] []).GrowsTo b)
    (h' : (f.collect [d'] []).GrowsTo b) : d = d' := by
  have hsame : (f.collect [d] []).declarations.toList = (f.collect [d'] []).declarations.toList := by
    refine (List.prefix_of_prefix_length_le h.1 h'.1 ?_).eq_of_length ?_ <;> simp [Frame.collect]
  simpa [Frame.collect] using hsame

theorem Document.block_of_readFrom {selector : String} {tokens : List Token} {b : Block} {blocks : List Block}
    (h : (readFrom selector tokens).value = .ok (b :: blocks)) : (Block.read selector tokens).value = .ok b := by
  obtain ⟨c, hc, hmap⟩ := Parsed.exists_of_andThen h
  obtain ⟨bs, -, hcons⟩ := map_eq_ok_iff.1 hmap
  rw [hc, (List.cons.inj hcons).1]

namespace Grammar

theorem Expression.exists_of_not_apart {v : Expression} {next : Option Head} (h : ¬v.Apart next) :
    ∃ p opening literal closing, v = .plain p ∧ next = some (.bracketed opening literal closing) := by
  match v, next with
  | .plain p, some (.bracketed opening literal closing) => exact ⟨p, opening, literal, closing, rfl, rfl⟩
  | .plain _, some (.name _) => exact absurd trivial h
  | .plain _, none => exact absurd trivial h
  | .color _, _ => exact absurd trivial h

namespace Item

/-- Entries that begin with a bracketed head begin with its bracket. -/
theorem ThinnedAll.exists_cons {is : List Item} {ts : List Token} (h : ThinnedAll may is ts) {opening : Mark "["}
    {literal : Literal} {closing : Mark "]"} (hhead : head? is = some (.bracketed opening literal closing)) :
    ∃ more, ts = opening.1 :: more := by
  match h with
  | .nil => cases hhead
  | .keep (.pair _) _ | .keep (.function ..) _ | .drop _ (.pair _) _ | .drop _ (.function ..) _ => cases hhead
  | .keep (.nested ..) _ | .drop _ (.nested ..) _ =>
    cases hhead
    exact ⟨_, rfl⟩

/-- **The missing comma shows**: the declaration has another value than with the comma. -/
theorem differ_of_bracket (p : Pair) {v : Plain} (hp : p.value = .plain v) (bracket : Mark "[") {rest : List Token}
    (rest' : List Token) (hlexed : ∀ t ∈ p.bare ++ bracket.1 :: rest, t.Lexed) :
    Nesting.Differ (p.bare ++ bracket.1 :: rest) (p.bare ++ p.comma.1 :: rest') := by
  have hvalue : ∀ t ∈ v.first :: v.more ++ bracket.1 :: rest, t.Lexed := by
    intro t ht
    refine hlexed t ?_
    rw [Pair.bare, hp]
    exact List.mem_cons_of_mem _ (List.mem_cons_of_mem _ ht)
  obtain ⟨text, left, hread, hne, hother⟩ := v.read_bracket bracket hvalue
  intro top below notes notes' b hrun hrun'
  have hentry : Entry.read top.selector p.key.1 (p.equals.1 :: (p.value.tokens ++ bracket.1 :: rest)) =
      ⟨.ok (.declaration ⟨Selector.hyphenate p.key.1.text, text⟩), skipComma left, []⟩ :=
    p.read_of_value top.selector (by rw [hp]; exact hread) hne
  rw [Pair.bare, List.cons_append, List.cons_append,
    Nesting.run_declaration (Token.isMark_of_isIdentifier p.key.2 _) hentry] at hrun
  rw [run_thinned (.pair p) (fun t ht => hlexed t (List.mem_append_left _ ht))
    (p.value.endsBefore_comma p.comma rest')] at hrun'
  -- whatever the rest of either run does, it keeps the declaration at this place
  have hgrows' : Nesting.GrowsTo (top.collect [p.declaration] []) b below := Nesting.run_growsTo hrun'
  obtain ⟨inner, hinner, hinner'⟩ := Nesting.exists_growsTo (Nesting.run_growsTo hrun) hgrows'
  have hsame := Frame.eq_of_growsTo hinner hinner'
  refine hother ?_
  rw [Pair.declaration, hp] at hsame
  exact congrArg Declaration.value hsame

/-- A comma that is left out and may not be is the comma of a plain value before a bracketed head. -/
theorem Thinned.differ_of_not_mayDrop {i : Item} {is : List Item} {ts us : List Token} (hi : Thinned may i ts)
    (hmay : i.MayDrop may (head? is)) (hdrop : ¬i.MayDrop Expression.Apart (head? is)) (his : ThinnedAll may is us)
    (rest rest' : List Token) (hall : ∀ t ∈ ts ++ (us ++ rest), t.Lexed) :
    Nesting.Differ (ts ++ (us ++ rest)) (i.tokens ++ rest') := by
  cases hi with
  | pair p =>
    have hnot : ¬p.value.Apart (head? is) := fun hv => hdrop ⟨hmay.1, hv⟩
    obtain ⟨v, opening, literal, closing, hp, hhead⟩ := Expression.exists_of_not_apart hnot
    obtain ⟨more, rfl⟩ := his.exists_cons hhead
    have hshape : (Item.pair p).tokens ++ rest' = p.bare ++ p.comma.1 :: rest' := by
      simp [tokens, Pair.tokens, Pair.bare]
    rw [hshape]
    exact differ_of_bracket p hp opening rest' hall
  | nested => exact absurd trivial hdrop
  | function => exact absurd trivial hdrop

mutual

theorem Thinned.apart_or_differ {i : Item} {ts : List Token} (h : Thinned (fun _ _ => True) i ts)
    (hlexed : ∀ t ∈ i.tokens, t.Lexed) :
    Thinned Expression.Apart i ts ∨
      ∀ rest rest', (∀ t ∈ ts ++ rest, t.Lexed) → Nesting.Differ (ts ++ rest) (i.tokens ++ rest') := by
  match h with
  | .pair p => exact .inl (.pair p)
  | .function key equals word opening closing hpairs stop comma =>
    exact .inl (.function key equals word opening closing hpairs stop comma)
  | @Thinned.nested _ items ts head equals opening hitems closing comma =>
    have hmem : ∀ t ∈ tokensAll items, t.Lexed := fun t ht => hlexed t (by simp [tokens, ht])
    refine (hitems.apart_or_differ hmem).imp (fun hapart => .nested head equals opening hapart closing comma) ?_
    intro hdiffer rest rest' hall top below notes notes' b hrun hrun'
    have hinner : ∀ t ∈ ts ++ closing.1 :: rest, t.Lexed := by
      intro t ht
      refine hall t ?_
      simp only [List.append_assoc, List.cons_append, List.nil_append]
      exact List.mem_append_right _ (List.mem_cons_of_mem _ (List.mem_cons_of_mem _ ht))
    have hshape : head.tokens ++ equals.1 :: opening.1 :: (ts ++ [closing.1]) ++ rest =
        head.tokens ++ equals.1 :: opening.1 :: (ts ++ closing.1 :: rest) := by
      simp
    have hshape' : (Item.nested head equals opening items closing comma).tokens ++ rest' =
        head.tokens ++ equals.1 :: opening.1 :: (tokensAll items ++ closing.1 :: comma.1 :: rest') := by
      simp [tokens]
    rw [hshape, head.run_tokens] at hrun
    rw [hshape', head.run_tokens] at hrun'
    exact hdiffer closing rest _ hinner _ _ _ _ b hrun hrun'

/-- **Entries with commas left out** are entries whose values are all told apart, or lead to another block than with
all commas. -/
theorem ThinnedAll.apart_or_differ {is : List Item} {ts : List Token} (h : ThinnedAll (fun _ _ => True) is ts)
    (hlexed : ∀ t ∈ tokensAll is, t.Lexed) :
    ThinnedAll Expression.Apart is ts ∨
      ∀ (closing : Mark "\x7d") (rest rest' : List Token), (∀ t ∈ ts ++ closing.1 :: rest, t.Lexed) →
        Nesting.Differ (ts ++ closing.1 :: rest) (tokensAll is ++ rest') := by
  match h with
  | .nil => exact .inl .nil
  | @ThinnedAll.keep _ i is ts us hi his =>
    have htokens : ∀ t ∈ i.tokens, t.Lexed := fun t ht => hlexed t (List.mem_append_left _ ht)
    have hmore : ∀ t ∈ tokensAll is, t.Lexed := fun t ht => hlexed t (List.mem_append_right _ ht)
    simp only [tokensAll, List.append_assoc, List.cons_append]
    rcases hi.apart_or_differ htokens with hapart | hdiffer
    · -- this entry is read alike with and without commas, so the first difference is behind it
      refine (his.apart_or_differ hmore).imp (.keep hapart) ?_
      intro hdiffer closing rest rest' hall
      obtain ⟨hts, hcomma⟩ := List.forall_mem_append.1 hall
      refine (hdiffer closing rest rest' (List.forall_mem_cons.1 hcomma).2).of_run _ ?_
        fun top below notes => run_tokens i htokens top below _ notes
      intro top below notes
      rw [run_thinned hapart hts (i.endsBefore_comma i.comma _), skipComma_of_isMark i.comma.2]
    · exact .inr fun closing rest rest' hall => hdiffer _ _ hall
  | @ThinnedAll.drop _ i is ts us hmay hi his =>
    have htokens : ∀ t ∈ i.tokens, t.Lexed := fun t ht => hlexed t (List.mem_append_left _ ht)
    have hmore : ∀ t ∈ tokensAll is, t.Lexed := fun t ht => hlexed t (List.mem_append_right _ ht)
    simp only [tokensAll, List.append_assoc]
    rcases hi.apart_or_differ htokens with hapart | hdiffer
    · by_cases hdrop : i.MayDrop Expression.Apart (head? is)
      · refine (his.apart_or_differ hmore).imp (.drop hdrop hapart) ?_
        intro hdiffer closing rest rest' hall
        obtain ⟨hts, hus⟩ := List.forall_mem_append.1 hall
        refine (hdiffer closing rest rest' hus).of_run _ ?_
          fun top below notes => run_tokens i htokens top below _ notes
        intro top below notes
        rw [run_thinned hapart hts (his.endsBefore_of_mayDrop hdrop closing rest), his.skipComma_eq]
      · exact .inr fun closing rest rest' hall => hi.differ_of_not_mayDrop hmay hdrop his _ _ hall
    · exact .inr fun closing rest rest' hall => hdiffer _ _ hall

end

end Item

/-! ## Documents -/

namespace Statement

/-- A block with commas left out is one whose values are all told apart, or the document behind its head stands for
other blocks. -/
theorem Thinned.apart_or_ne {s : Statement} {ts : List Token} (h : s.Thinned (fun _ _ => True) ts)
    (hlexed : ∀ t ∈ s.tokens, t.Lexed) :
    s.Thinned Expression.Apart ts ∨
      ∀ rest blocks, (∀ t ∈ ts ++ rest, t.Lexed) → (Document.read (ts ++ rest)).value ≠ .ok (s.block :: blocks) := by
  obtain @⟨ts, hitems⟩ := h
  have hmem : ∀ t ∈ Item.tokensAll s.items, t.Lexed := fun t ht => hlexed t (by simp [tokens, ht])
  refine (hitems.apart_or_differ hmem).imp .block ?_
  intro hdiffer rest blocks hall hread
  have hinner : ∀ t ∈ ts ++ s.closing.1 :: rest, t.Lexed := by
    intro t ht
    refine hall t ?_
    simp only [List.append_assoc, List.cons_append, List.nil_append]
    exact List.mem_append_right _ (List.mem_cons_of_mem _ (List.mem_cons_of_mem _ ht))
  have hshape : s.head.tokens ++ s.equals.1 :: s.opening.1 :: (ts ++ [s.closing.1]) ++ rest =
      s.head.tokens ++ s.equals.1 :: s.opening.1 :: (ts ++ s.closing.1 :: rest) := by
    simp
  have hwhole := congrArg Parsed.value (s.read_block (Item.thinnedAll_tokensAll _ s.items) hmem [])
  rw [hshape, s.read_head] at hread
  have hblock := Document.block_of_readFrom hread
  rw [Block.read, expect_of_isMark s.opening.2] at hblock hwhole
  exact hdiffer s.closing rest _ hinner _ _ _ _ s.block hblock hwhole

end Statement

theorem Document.Thinned.apart_or_ne {d : Document} {ts : List Token} (h : d.Thinned (fun _ _ => True) ts)
    (hlexed : ∀ t ∈ d.tokens, t.Lexed) :
    d.Thinned Expression.Apart ts ∨ (NestedStyles.Document.read ts).value ≠ .ok d.blocks := by
  induction h with
  | nil => exact .inl .nil
  | @cons s d ts us hs hd ih =>
    obtain ⟨htokens, hmore⟩ := List.forall_mem_append.1 hlexed
    have hts : ∀ t ∈ ts, t.Lexed := fun t ht => htokens t (hs.sublist.subset ht)
    have hus : ∀ t ∈ us, t.Lexed := fun t ht => hmore t (hd.sublist.subset ht)
    rcases hs.apart_or_ne htokens with hapart | hne
    · refine (ih hmore).imp (.cons hapart) ?_
      intro hne hread
      rw [hapart.read_eq hts] at hread
      obtain ⟨bs, hbs, hcons⟩ := map_eq_ok_iff.1 hread
      rw [(List.cons.inj hcons).2] at hbs
      exact hne hbs
    · exact .inr (hne us _ (List.forall_mem_append.2 ⟨hts, hus⟩))

theorem Document.thinned_tokens (may : Expression → Option Head → Prop) (d : Document) : d.Thinned may d.tokens := by
  induction d with
  | nil => exact .nil
  | cons s d ih => exact .cons (s.thinned_tokens may) ih

theorem Document.Thinned.read_eq {d : Document} {ts : List Token} (h : d.Thinned Expression.Apart ts)
    (hlexed : ∀ t ∈ ts, t.Lexed) : NestedStyles.Document.read ts = ⟨.ok d.blocks, [], []⟩ := by
  induction h with
  | nil => rw [NestedStyles.Document.read, blocks, List.map_nil]
  | cons hs hd ih =>
    obtain ⟨hts, hus⟩ := List.forall_mem_append.1 hlexed
    rw [hs.read_eq hts, ih hus]
    rfl

/-- **Which commas may be left out**: any, as long as no plain value comes to stand directly before a bracketed head.
The document is then read as before, without a diagnostic; otherwise it is never read as the same blocks. -/
theorem Document.read_thinned (d : Document) (hlexed : ∀ t ∈ d.tokens, t.Lexed) {ts : List Token}
    (h : d.Thinned (fun _ _ => True) ts) :
    NestedStyles.Document.read d.tokens = ⟨.ok d.blocks, [], []⟩ ∧
      (d.Thinned Expression.Apart ts → NestedStyles.Document.read ts = ⟨.ok d.blocks, [], []⟩) ∧
      (¬d.Thinned Expression.Apart ts → (NestedStyles.Document.read ts).value ≠ .ok d.blocks) := by
  have hts : ∀ t ∈ ts, t.Lexed := fun t ht => hlexed t (h.sublist.subset ht)
  exact ⟨(d.thinned_tokens _).read_eq hlexed, fun hapart => hapart.read_eq hts, (h.apart_or_ne hlexed).resolve_left⟩

namespace Sample

/-- The tokens of the sample without the five commas behind entries; those inside the color stay. -/
def spare : List Token := document.tokens.filter fun t => t.position.column ∉ [22, 50, 55, 93, 96]

theorem thinned_spare (hmay : ∀ v next, v.Apart next → may v next) : document.Thinned may spare := by
  have hthinned : ∃ ts, document.Thinned may ts ∧ ts = spare :=
    ⟨_, .cons (.block (.drop ⟨rfl, hmay _ _ trivial⟩ (.pair _)
      (.drop trivial (.function _ _ _ _ _ (.drop _ rfl .nil) _ _)
        (.drop trivial (.nested _ _ _ (by exact .drop ⟨rfl, hmay _ _ trivial⟩ (.pair _) .nil) _ _) .nil)))) .nil, rfl⟩
  obtain ⟨ts, h, rfl⟩ := hthinned
  exact h

end Sample

theorem Document.read_thinned_spare :
    (∀ t ∈ Sample.document.tokens, t.Lexed) ∧ Sample.document.Thinned (fun _ _ => True) Sample.spare ∧
      NestedStyles.Document.read Sample.spare =
        ⟨.ok [⟨"nav", [⟨"gap", "1px - a"⟩], [⟨"nav:hover", [⟨"top", "0"⟩], []⟩,
          ⟨"nav a", [⟨"ink", "hsl(1, 2%, 3%)"⟩], []⟩]⟩], [], []⟩ := by
  have hlexed : ∀ t ∈ Sample.document.tokens, t.Lexed := fun t ht => ⟨Sample.source, Sample.tokens_document ▸ ht⟩
  have hthinned : Sample.document.Thinned (fun _ _ => True) Sample.spare := Sample.thinned_spare fun _ _ _ => trivial
  have hread := (Document.read_thinned Sample.document hlexed hthinned).2.1 (Sample.thinned_spare fun _ _ h => h)
  refine ⟨hlexed, hthinned, hread.trans ?_⟩
  decide +kernel

/-! ### A comma that is needed -/

namespace Sample

def crowdedSource : String := "p = \x7b ink = red, [\"&:hover\"] = \x7b gap = 0, \x7d, \x7d"

def red : Plain :=
  ⟨token .identifier "red" 13, [], by decide, by decide, by decide, by decide, by decide, by decide⟩

def crowded : Document :=
  [⟨.name (name "p" 1), mark "=" 3, mark "\x7b" 5,
    [.pair ⟨name "ink" 7, mark "=" 11, .plain red, mark "," 16⟩,
      .nested (.bracketed (mark "[" 18) ⟨token .literal "&:hover" 19, rfl⟩ (mark "]" 28)) (mark "=" 30) (mark "\x7b" 32)
        [.pair ⟨name "gap" 34, mark "=" 38, .plain (numeral "0" 40), mark "," 41⟩] (mark "\x7d" 43) (mark "," 44)],
    mark "\x7d" 46⟩]

theorem tokens_crowded : crowded.tokens = Token.significant crowdedSource := by
  decide +kernel

/-- The same tokens without the comma between the value and the bracket. -/
def fused : List Token := crowded.tokens.filter fun t => t.position.column != 16

end Sample

/-- The comma before a bracketed head cannot be left out: the value takes in the whole block behind it. -/
theorem Document.read_fused :
    (∀ t ∈ Sample.crowded.tokens, t.Lexed) ∧ Sample.crowded.Thinned (fun _ _ => True) Sample.fused ∧
      NestedStyles.Document.read Sample.crowded.tokens =
        ⟨.ok [⟨"p", [⟨"ink", "red"⟩], [⟨"p:hover", [⟨"gap", "0"⟩], []⟩]⟩], [], []⟩ ∧
      NestedStyles.Document.read Sample.fused =
        ⟨.ok [⟨"p", [⟨"ink", "red[\"&:hover\"]=\x7bgap=0,\x7d"⟩], []⟩], [], []⟩ := by
  have hthinned : ∃ ts, Sample.crowded.Thinned (fun _ _ => True) ts ∧ ts = Sample.fused :=
    ⟨_, .cons (.block (.drop ⟨rfl, trivial⟩ (.pair _)
      (.keep (.nested _ _ _ (.keep (.pair _) .nil) _ _) .nil))) .nil, rfl⟩
  refine ⟨fun t ht => ⟨Sample.crowdedSource, Sample.tokens_crowded ▸ ht⟩, ?_, ?_, ?_⟩
  · obtain ⟨ts, h, rfl⟩ := hthinned
    exact h
  · decide +kernel
  · decide +kernel

end Grammar

end NestedStyles
