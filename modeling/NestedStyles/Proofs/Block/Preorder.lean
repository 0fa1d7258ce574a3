import NestedStyles.Document
import NestedStyles.Proofs.Preliminaries

/-!
# Forests in pre-order

The walk that collects the rules of a forest keeps a list of what is still to be visited. It meets the blocks in
pre-order, so the rules of a forest are the rules of these blocks, each taken by itself.

- `Block.rules_append`, `Block.rules_eq_rulesListed`: the walk and the pre-order.
- `Block.Occurs`, `Block.mem_preorderAll_iff`: the blocks of a forest at any depth.
- `Block.Everywhere`, `Document.read_everywhere`: what holds of all of them.
- `Block.alone`: a block without the blocks inside it.
- `Block.flattened`, `Block.flattened_cons`: the blocks of a forest side by side, each block before those inside it.
- `Block.rules_eq_of_flattened`: forests with the same blocks have the same rules.
-/

namespace NestedStyles.Block

/-! ## The walk -/

/-- The listed blocks that have declarations, as rules. -/
def rulesListed (listed : List (Nat × Block)) : List Rule :=
  (listed.filter fun entry => !entry.2.declarations.isEmpty).map fun entry => entry.2.rule

theorem rulesListed_append (listed more : List (Nat × Block)) :
    rulesListed (listed ++ more) = rulesListed listed ++ rulesListed more := by
  rw [rulesListed, List.filter_append, List.map_append, rulesListed, rulesListed]

mutual

theorem rules_cons (depth : Nat) (b : Block) (pending : List Block) :
    rules (b :: pending) = rulesListed (b.preorder depth) ++ rules pending := by
  match b with
  | ⟨selector, declarations, children⟩ =>
    rw [rules, rules_append (depth + 1) children pending, preorder]
    cases declarations with
    | nil => rfl
    | cons d ds => rfl

/-- **The walk follows the pre-order**, first of what comes next and then of what is still to be visited. -/
theorem rules_append (depth : Nat) (bs pending : List Block) :
    rules (bs ++ pending) = rulesListed (preorderAll depth bs) ++ rules pending := by
  match bs with
  | [] => rfl
  | b :: bs =>
    rw [List.cons_append, rules_cons depth b, rules_append depth bs, preorderAll, rulesListed_append, List.append_assoc]

end

/-- The rules of a forest are the blocks with declarations in pre-order. -/
theorem rules_eq_rulesListed (depth : Nat) (bs : List Block) : rules bs = rulesListed (preorderAll depth bs) := by
  have hwalk := rules_append depth bs []
  rwa [List.append_nil, rules, List.append_nil] at hwalk

/-! ## The blocks of a forest -/

/-- A block of the forest itself, or one inside it at any depth. -/
inductive Occurs (b : Block) : List Block → Prop
  | outermost {bs : List Block} (h : b ∈ bs) : Occurs b bs
  | inside {a : Block} {bs : List Block} (ha : a ∈ bs) (h : Occurs b a.children) : Occurs b bs

theorem not_occurs_nil (b : Block) : ¬b.Occurs [] := by
  rintro (h | ⟨ha, -⟩)
  · cases h
  · cases ha

theorem occurs_cons_iff {a b : Block} {bs : List Block} :
    b.Occurs (a :: bs) ↔ b = a ∨ b.Occurs a.children ∨ b.Occurs bs := by
  constructor
  · rintro (h | ⟨ha, h⟩)
    · rcases List.mem_cons.1 h with rfl | h
      · exact .inl rfl
      · exact .inr (.inr (.outermost h))
    · rcases List.mem_cons.1 ha with rfl | ha
      · exact .inr (.inl h)
      · exact .inr (.inr (.inside ha h))
  · rintro (rfl | h | h | ⟨ha, h⟩)
    · exact .outermost List.mem_cons_self
    · exact .inside List.mem_cons_self h
    · exact .outermost (List.mem_cons_of_mem a h)
    · exact .inside (List.mem_cons_of_mem a ha) h

/-- What holds of all blocks of a forest, at any depth. -/
def Everywhere (P : Block → Prop) (bs : List Block) : Prop := ∀ n : Block, n.Occurs bs → P n

section Everywhere

variable {P : Block → Prop} {b : Block} {as bs : List Block}

theorem everywhere_nil : Everywhere P [] := fun n hn => absurd hn n.not_occurs_nil

theorem everywhere_cons_iff : Everywhere P (b :: bs) ↔ P b ∧ Everywhere P b.children ∧ Everywhere P bs := by
  constructor
  · intro h
    refine ⟨h b (.outermost List.mem_cons_self), fun n hn => h n ?_, fun n hn => h n ?_⟩
    · exact occurs_cons_iff.2 (.inr (.inl hn))
    · exact occurs_cons_iff.2 (.inr (.inr hn))
  · rintro ⟨hfirst, hinside, hbehind⟩ n hn
    rcases occurs_cons_iff.1 hn with rfl | hn | hn
    · exact hfirst
    · exact hinside n hn
    · exact hbehind n hn

theorem Everywhere.append (has : Everywhere P as) (hbs : Everywhere P bs) : Everywhere P (as ++ bs) := by
  induction as with
  | nil => exact hbs
  | cons a as ih =>
    obtain ⟨hfirst, hinside, hbehind⟩ := everywhere_cons_iff.1 has
    exact everywhere_cons_iff.2 ⟨hfirst, hinside, ih hbehind⟩

end Everywhere

mutual

theorem mem_preorder_iff (depth : Nat) (a b : Block) :
    (∃ d, (d, b) ∈ a.preorder depth) ↔ b = a ∨ b.Occurs a.children := by
  match a with
  | ⟨selector, declarations, children⟩ =>
    rw [← mem_preorderAll_iff (depth + 1) children b, preorder]
    simp [exists_or]

theorem mem_preorderAll_iff (depth : Nat) (bs : List Block) (b : Block) :
    (∃ d, (d, b) ∈ preorderAll depth bs) ↔ b.Occurs bs := by
  match bs with
  | [] => exact iff_of_false (by simp [preorderAll]) b.not_occurs_nil
  | a :: bs =>
    rw [occurs_cons_iff, ← or_assoc, ← mem_preorder_iff depth a b, ← mem_preorderAll_iff depth bs b, preorderAll]
    simp [exists_or]

end

/-! ## Blocks side by side -/

/-- The block without the blocks inside it. -/
def alone (b : Block) : Block := { b with children := [] }

/-- The blocks of a forest, each by itself, in pre-order. -/
def flattened (bs : List Block) : List Block := (preorderAll 0 bs).map fun entry => entry.2.alone

mutual

/-- The depth of a block has no influence on its place in the pre-order. -/
theorem map_snd_preorder (depth depth' : Nat) (b : Block) :
    (b.preorder depth).map Prod.snd = (b.preorder depth').map Prod.snd := by
  match b with
  | ⟨selector, declarations, children⟩ =>
    rw [preorder, preorder, List.map_cons, List.map_cons, map_snd_preorderAll (depth + 1) (depth' + 1) children]

theorem map_snd_preorderAll (depth depth' : Nat) (bs : List Block) :
    (preorderAll depth bs).map Prod.snd = (preorderAll depth' bs).map Prod.snd := by
  match bs with
  | [] => rfl
  | b :: bs =>
    rw [preorderAll, preorderAll, List.map_append, List.map_append, map_snd_preorder depth depth' b,
      map_snd_preorderAll depth depth' bs]

end

theorem flattened_eq (depth : Nat) (bs : List Block) :
    flattened bs = ((preorderAll depth bs).map Prod.snd).map alone := by
  rw [map_snd_preorderAll depth 0, List.map_map, flattened]
  rfl

theorem flattened_nil : flattened [] = [] := flattened_eq 0 []

/-- A block comes before the blocks inside it, and these before what follows. -/
theorem flattened_cons (b : Block) (bs : List Block) :
    flattened (b :: bs) = b.alone :: (flattened b.children ++ flattened bs) := by
  obtain ⟨selector, declarations, children⟩ := b
  rw [flattened_eq 0, flattened_eq 1 children, flattened_eq 0 bs]
  simp [preorderAll, preorder]

theorem flattened_append (as bs : List Block) : flattened (as ++ bs) = flattened as ++ flattened bs := by
  induction as with
  | nil => rw [flattened_nil, List.nil_append, List.nil_append]
  | cons a as ih => rw [List.cons_append, flattened_cons, flattened_cons, ih, List.cons_append, List.append_assoc]

/-- Blocks that are side by side stay as they are. -/
theorem flattened_map_alone (bs : List Block) : flattened (bs.map alone) = bs.map alone := by
  induction bs with
  | nil => exact flattened_nil
  | cons b bs ih =>
    rw [List.map_cons, flattened_cons, ih]
    show b.alone :: (flattened [] ++ bs.map alone) = b.alone :: bs.map alone
    rw [flattened_nil, List.nil_append]

theorem flattened_flattened (bs : List Block) : flattened (flattened bs) = flattened bs := by
  rw [flattened_eq 0 bs, flattened_map_alone]

/-! ## Rules -/

/-- The rules of a forest are those of its blocks, each by itself. -/
theorem rules_eq_filter (bs : List Block) :
    rules bs = ((flattened bs).filter fun b => !b.declarations.isEmpty).map rule := by
  rw [rules_eq_rulesListed 0, rulesListed, flattened, List.filter_map, List.map_map]
  rfl

/-- A rule comes from a block of the forest. -/
theorem exists_occurs_of_mem_rules {bs : List Block} {r : Rule} (h : r ∈ rules bs) :
    ∃ b : Block, b.Occurs bs ∧ b.declarations ≠ [] ∧ r = b.rule := by
  rw [rules_eq_rulesListed 0] at h
  obtain ⟨⟨depth, b⟩, hlisted, rfl⟩ := List.mem_map.1 h
  obtain ⟨hmem, hne⟩ := List.mem_filter.1 hlisted
  exact ⟨b, (mem_preorderAll_iff 0 bs b).1 ⟨depth, hmem⟩, by simpa using hne, rfl⟩

/-- **Forests with the same blocks in pre-order have the same rules.** -/
theorem rules_eq_of_flattened {as bs : List Block} (h : flattened as = flattened bs) : rules as = rules bs := by
  rw [rules_eq_filter, rules_eq_filter, h]

/-- Taking the nesting away keeps the rules. -/
theorem rules_flattened (bs : List Block) : rules (flattened bs) = rules bs :=
  rules_eq_of_flattened (flattened_flattened bs)

end NestedStyles.Block

namespace NestedStyles.Document

/-- What holds everywhere in the blocks that are read holds everywhere in the document. -/
theorem read_everywhere {P : Block → Prop} {tokens : List Token}
    (hblock : ∀ selector here b, here <:+ tokens → (Block.read selector here).value = .ok b → Block.Everywhere P [b])
    (here : List Token) (hhere : here <:+ tokens) (blocks : List Block) (h : (read here).value = .ok blocks) :
    Block.Everywhere P blocks := by
  fun_induction read here generalizing blocks with
  | case1 =>
    cases h
    exact Block.everywhere_nil
  | case2 t ts _ ih => exact ih ((List.suffix_cons t ts).trans hhere) blocks h
  | case3 t ts s hs _ _ _ ih =>
    exact ih ((selector?_suffix hs).trans ((List.suffix_cons t ts).trans hhere)) blocks h
  | case4 t ts s hs _ _ _ _ ih =>
    have hrest := (selector?_suffix hs).trans ((List.suffix_cons t ts).trans hhere)
    exact ih ((List.tail_suffix _).trans hrest) blocks h
  | case5 => cases h
  | case6 t ts s hs _ _ _ _ _ block b hb more ih =>
    have hrest := (selector?_suffix hs).trans ((List.suffix_cons t ts).trans hhere)
    have htail := (List.tail_suffix s.rest).trans hrest
    obtain ⟨bs, hmore, rfl⟩ := map_eq_ok_iff.1 h
    exact (hblock s.value _ b htail hb).append (ih ((Block.read_suffix ..).trans htail) bs hmore)

end NestedStyles.Document
