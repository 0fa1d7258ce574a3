import NestedStyles.Proofs.Block.Preorder

/-!
# Addresses in a forest

A block of a forest is found by its address: its place among the outermost blocks or, from level to level, the places
of the blocks around it and its own. The length of the address is the number of these blocks and one more. In
lexicographic order an address comes before those inside it, and these before the next one beside it, so this order
says what the pre-order of a forest is without a recursion over the forest.

- `Block.at?`: the block at an address.
- `Block.InPreorder`: a listing of all blocks of a forest, each once, by address and with its number of ancestors.
- `Block.addressesAll`: the addresses of a forest.
- `Block.preorderAll_inPreorder`: the recursive pre-order is such a listing.
-/

namespace NestedStyles.Block

/-- The block that a path from a block leads to, place by place among the blocks inside. -/
def descend : Block → List Nat → Option Block
  | b, [] => some b
  | b, i :: path => b.children[i]?.bind fun c => c.descend path

/-- The block at an address in a forest. -/
def at? (bs : List Block) : List Nat → Option Block
  | [] => none
  | i :: path => bs[i]?.bind fun b => b.descend path

/-- A listing of a forest by increasing addresses, none of them left out, with the number of ancestors of each block. -/
def InPreorder (bs : List Block) (listed : List (Nat × Block)) : Prop :=
  ∃ addresses : List (List Nat), addresses.Pairwise (List.Lex (· < ·)) ∧
    (∀ address, address ∈ addresses ↔ (at? bs address).isSome = true) ∧
    listed.map some = addresses.map fun address => (at? bs address).map (address.length - 1, ·)

/-! ## The addresses of a forest -/

/-- The address of a block after another one was put in front of the forest. -/
def shifted : List Nat → List Nat
  | [] => []
  | i :: path => (i + 1) :: path

mutual

/-- The paths that lead from a block to itself and to the blocks inside it. -/
def paths : Block → List (List Nat)
  | ⟨_, _, children⟩ => [] :: addressesAll children

def addressesAll : List Block → List (List Nat)
  | [] => []
  | b :: bs => b.paths.map (0 :: ·) ++ (addressesAll bs).map shifted

end

/-- A block in front moves every address by one place. -/
theorem at?_shifted (b : Block) (bs : List Block) (address : List Nat) :
    at? (b :: bs) (shifted address) = at? bs address := by
  cases address with
  | nil => rfl
  | cons i path => simp [shifted, at?]

theorem descend_eq_at? (b : Block) {path : List Nat} (hpath : path ≠ []) : b.descend path = at? b.children path := by
  obtain ⟨i, path, rfl⟩ := List.exists_cons_of_ne_nil hpath
  rfl

theorem length_shifted (address : List Nat) : (shifted address).length = address.length := by
  cases address <;> rfl

theorem mem_shifted_iff {addresses : List (List Nat)} {i : Nat} {path : List Nat} :
    (i + 1) :: path ∈ addresses.map shifted ↔ i :: path ∈ addresses := by
  constructor
  · intro h
    obtain ⟨address, haddress, heq⟩ := List.mem_map.1 h
    cases address with
    | nil => cases heq
    | cons j path' =>
      obtain ⟨hij, rfl⟩ := List.cons.inj heq
      rwa [← Nat.succ.inj hij]
  · exact fun h => List.mem_map.2 ⟨_, h, rfl⟩

/-- The first place is taken by the block in front. -/
theorem zero_not_mem_shifted (addresses : List (List Nat)) (path : List Nat) : 0 :: path ∉ addresses.map shifted := by
  intro h
  obtain ⟨address, -, heq⟩ := List.mem_map.1 h
  cases address with
  | nil => cases heq
  | cons j path' => cases heq

/-! ## None is left out, none is added -/

theorem nil_not_mem_addressesAll (bs : List Block) : [] ∉ addressesAll bs := by
  induction bs with
  | nil => simp [addressesAll]
  | cons b bs ih =>
    rw [addressesAll, List.mem_append, not_or]
    refine ⟨by simp, fun h => ?_⟩
    obtain ⟨address, haddress, heq⟩ := List.mem_map.1 h
    cases address with
    | nil => exact ih haddress
    | cons i path => cases heq

mutual

theorem mem_paths_iff (b : Block) (path : List Nat) : path ∈ b.paths ↔ (b.descend path).isSome = true := by
  match b, path with
  | ⟨selector, declarations, children⟩, [] => simp [paths, descend]
  | ⟨selector, declarations, children⟩, i :: path =>
    rw [paths, descend_eq_at? _ (List.cons_ne_nil i path), ← mem_addressesAll_iff children]
    simp

/-- **The addresses are those that lead to a block.** -/
theorem mem_addressesAll_iff (bs : List Block) (address : List Nat) :
    address ∈ addressesAll bs ↔ (at? bs address).isSome = true := by
  match bs, address with
  | bs, [] => exact iff_of_false (nil_not_mem_addressesAll bs) nofun
  | [], i :: path => simp [addressesAll, at?]
  | b :: bs, 0 :: path =>
    have hfirst : (at? (b :: bs) (0 :: path)).isSome = true ↔ path ∈ b.paths := (mem_paths_iff b path).symm
    rw [hfirst, addressesAll, List.mem_append]
    simp [zero_not_mem_shifted]
  | b :: bs, (i + 1) :: path =>
    have hbehind := mem_addressesAll_iff bs (i :: path)
    rw [← at?_shifted b] at hbehind
    rw [addressesAll, List.mem_append, mem_shifted_iff, hbehind]
    simp [shifted]

end

/-! ## The order of addresses -/

/-- An address in front of the forest comes before all others. -/
theorem lex_shifted {path address : List Nat} (haddress : address ≠ []) :
    List.Lex (· < ·) (0 :: path) (shifted address) := by
  obtain ⟨i, path', rfl⟩ := List.exists_cons_of_ne_nil haddress
  exact .rel (Nat.succ_pos i)

theorem shifted_lex_shifted {a a' : List Nat} (h : List.Lex (· < ·) a a') :
    List.Lex (· < ·) (shifted a) (shifted a') := by
  cases h with
  | nil => exact .nil
  | rel h => exact .rel (Nat.succ_lt_succ h)
  | cons h => exact .cons h

mutual

theorem paths_pairwise (b : Block) : b.paths.Pairwise (List.Lex (· < ·)) := by
  match b with
  | ⟨selector, declarations, children⟩ =>
    refine .cons (fun address haddress => ?_) (addressesAll_pairwise children)
    obtain ⟨i, path, rfl⟩ := List.exists_cons_of_ne_nil fun hnil =>
      nil_not_mem_addressesAll children (hnil ▸ haddress)
    exact .nil

/-- **The addresses are in increasing order.** -/
theorem addressesAll_pairwise (bs : List Block) : (addressesAll bs).Pairwise (List.Lex (· < ·)) := by
  match bs with
  | [] => exact .nil
  | b :: bs =>
    rw [addressesAll, List.pairwise_append, List.pairwise_map, List.pairwise_map]
    refine ⟨(paths_pairwise b).imp .cons, (addressesAll_pairwise bs).imp shifted_lex_shifted, ?_⟩
    intro address haddress address' haddress'
    obtain ⟨path, -, rfl⟩ := List.mem_map.1 haddress
    obtain ⟨behind, hbehind, rfl⟩ := List.mem_map.1 haddress'
    exact lex_shifted fun hnil => nil_not_mem_addressesAll bs (hnil ▸ hbehind)

end

/-! ## The pre-order by addresses -/

mutual

theorem preorder_eq_paths (depth : Nat) (b : Block) :
    (b.preorder depth).map some = b.paths.map fun path => (b.descend path).map (depth + path.length, ·) := by
  match b with
  | ⟨selector, declarations, children⟩ =>
    rw [preorder, paths, List.map_cons, List.map_cons, preorderAll_eq_addresses (depth + 1) children]
    refine congrArg (_ :: ·) (List.map_congr_left fun address haddress => ?_)
    -- below a block its children are the forest, and a path into them is one step longer
    have hne : address ≠ [] := fun hnil => nil_not_mem_addressesAll children (hnil ▸ haddress)
    have hlength := List.length_pos_iff.2 hne
    have hdepth : depth + 1 + (address.length - 1) = depth + address.length := by omega
    rw [descend_eq_at? _ hne, hdepth]

/-- The pre-order follows the addresses, and the depth of a block is the length of the way to it. -/
theorem preorderAll_eq_addresses (depth : Nat) (bs : List Block) :
    (preorderAll depth bs).map some =
      (addressesAll bs).map fun address => (at? bs address).map (depth + (address.length - 1), ·) := by
  match bs with
  | [] => rfl
  | b :: bs =>
    rw [preorderAll, addressesAll, List.map_append, List.map_append, preorder_eq_paths depth b,
      preorderAll_eq_addresses depth bs, List.map_map, List.map_map]
    refine congr (congrArg _ (List.map_congr_left fun path _ => ?_)) (List.map_congr_left fun address _ => ?_)
    · rfl
    · rw [Function.comp_apply, at?_shifted, length_shifted]

end

/-- **The recursive pre-order lists a forest by addresses.** -/
theorem preorderAll_inPreorder (bs : List Block) : InPreorder bs (preorderAll 0 bs) := by
  refine ⟨addressesAll bs, addressesAll_pairwise bs, mem_addressesAll_iff bs, ?_⟩
  rw [preorderAll_eq_addresses]
  simp only [Nat.zero_add]

end NestedStyles.Block
