/-!
# Blocks and rules

A block has a selector, declarations of its own and nested blocks. A rule is a selector with its declarations, without
nesting; the rules of a document are its blocks in source order, those without a declaration left out.

-/

namespace NestedStyles

structure Declaration where
  property : String
  value : String
deriving DecidableEq, Repr, Inhabited

structure Block where
  selector : String
  declarations : List Declaration := []
  children : List Block := []
deriving Repr, Inhabited

structure Rule where
  selector : String
  declarations : List Declaration
deriving DecidableEq, Repr, Inhabited

namespace Block

def rule (b : Block) : Rule := ⟨b.selector, b.declarations⟩

/-! ## Equality -/

mutual

def decideEq : (a b : Block) → Decidable (a = b)
  | ⟨s, ds, as⟩, ⟨s', ds', bs⟩ =>
    match decEq s s', decEq ds ds', decideEqAll as bs with
    | .isTrue hs, .isTrue hd, .isTrue hc => .isTrue (by rw [hs, hd, hc])
    | .isFalse hs, _, _ => .isFalse fun h => hs (congrArg selector h)
    | _, .isFalse hd, _ => .isFalse fun h => hd (congrArg declarations h)
    | _, _, .isFalse hc => .isFalse fun h => hc (congrArg children h)

def decideEqAll : (as bs : List Block) → Decidable (as = bs)
  | [], [] => .isTrue rfl
  | [], _ :: _ => .isFalse (by simp)
  | _ :: _, [] => .isFalse (by simp)
  | a :: as, b :: bs =>
    match decideEq a b, decideEqAll as bs with
    | .isTrue ha, .isTrue has => .isTrue (by rw [ha, has])
    | .isFalse ha, _ => .isFalse fun h => ha (List.cons.inj h).1
    | _, .isFalse has => .isFalse fun h => has (List.cons.inj h).2

end

instance : DecidableEq Block := decideEq

/-! ## How many blocks there are -/

mutual

def size : Block → Nat
  | ⟨_, _, children⟩ => sizeAll children + 1

def sizeAll : List Block → Nat
  | [] => 0
  | b :: bs => b.size + sizeAll bs

end

theorem sizeAll_append (as bs : List Block) : sizeAll (as ++ bs) = sizeAll as + sizeAll bs := by
  induction as with
  | nil => simp [sizeAll]
  | cons a as ih => simp [sizeAll, ih, Nat.add_assoc]

/-- A block counts for itself and all blocks inside it. -/
theorem size_eq (b : Block) : b.size = sizeAll b.children + 1 := by
  cases b; rfl

/-! ## Pre-order -/

mutual

/-- The block with its depth and then, one level deeper, the forest inside it. -/
def preorder (depth : Nat) : Block → List (Nat × Block)
  | ⟨selector, declarations, children⟩ =>
    (depth, ⟨selector, declarations, children⟩) :: preorderAll (depth + 1) children

def preorderAll (depth : Nat) : List Block → List (Nat × Block)
  | [] => []
  | b :: bs => b.preorder depth ++ preorderAll depth bs

end

/-! ## Rules -/

/-- The rules of a forest in source order. The argument holds the blocks that are still to be visited, the next one
first, so no recursion is as deep as the nesting. -/
def rules : List Block → List Rule
  | [] => []
  | b :: pending =>
    let more := rules (b.children ++ pending)
    if b.declarations.isEmpty then more else b.rule :: more
termination_by pending => sizeAll pending
decreasing_by
  simp only [sizeAll_append, sizeAll, size_eq]
  omega

end Block

end NestedStyles
