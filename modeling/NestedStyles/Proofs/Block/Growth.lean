import NestedStyles.Block.Nesting

/-!
# Open blocks only grow

A round adds to the innermost block or puts it, closed, behind the blocks of the one around it. So what the open
blocks hold at any time is found again in the block that a run gives, at the same places.

- `Nesting.run_growsTo`: the block that a run gives holds what its first state has collected.
- `Nesting.exists_growsTo`: two runs over the same outer blocks that give the same block agree on the innermost one.
-/

namespace NestedStyles

/-- A block that holds what the frame has collected, and maybe more behind it. -/
def Frame.GrowsTo (f : Frame) (b : Block) : Prop :=
  f.declarations.toList <+: b.declarations ∧ f.children.toList <+: b.children

namespace Frame

variable {f g : Frame} {b : Block}

theorem growsTo_toBlock (f : Frame) : f.GrowsTo f.toBlock :=
  ⟨List.prefix_refl _, List.prefix_refl _⟩

theorem GrowsTo.of_adopt {c : Block} (h : (f.adopt c).GrowsTo b) : f.GrowsTo b := by
  refine ⟨h.1, List.IsPrefix.trans ?_ h.2⟩
  simp [adopt]

theorem GrowsTo.of_add {e : Entry} (h : (f.add e).GrowsTo b) : f.GrowsTo b := by
  cases e with
  | nothing => exact h
  | declaration d =>
    refine ⟨List.IsPrefix.trans ?_ h.1, h.2⟩
    simp [add]
  | nested c => exact h.of_adopt
  | opening selector => exact h

end Frame

namespace Nesting

/-- The innermost block and those around it grow to `whole`: the innermost one is closed at some time, as a block that
holds what it has collected, and stands behind the blocks that the next one has. -/
def GrowsTo (top : Frame) (whole : Block) : List Frame → Prop
  | [] => top.GrowsTo whole
  | f :: fs => ∃ b, top.GrowsTo b ∧ GrowsTo (f.adopt b) whole fs

variable {top f g : Frame} {below : List Frame} {whole : Block}

theorem GrowsTo.mono (hmono : ∀ b, f.GrowsTo b → g.GrowsTo b) (h : GrowsTo f whole below) :
    GrowsTo g whole below := by
  cases below with
  | nil => exact hmono whole h
  | cons outer below =>
    obtain ⟨b, hb, hbelow⟩ := h
    exact ⟨b, hmono b hb, hbelow⟩

/-- What a round ends with holds what its state has collected. -/
def Round.GrowsTo (whole : Block) : Round → Prop
  | .more s => Nesting.GrowsTo s.top whole s.below
  | .done outcome => outcome.value = .ok whole

/-- What the open blocks have collected after a round, they had in part before it. -/
theorem growsTo_of_step {s : Nesting} : s.step.GrowsTo whole → GrowsTo s.top whole s.below := by
  apply step_cases (motive := fun r => r.GrowsTo whole → GrowsTo s.top whole s.below)
  case ends =>
    rintro _ hbelow ⟨⟩
    rw [hbelow]
    exact s.top.growsTo_toBlock
  case closes =>
    intro _ f fs hbelow h
    rw [hbelow]
    exact ⟨s.top.toBlock, s.top.growsTo_toBlock, h⟩
  case fails => rintro _ _ _ _ _ _ _ ⟨⟩
  case opens =>
    rintro _ _ _ _ _ _ _ ⟨b, -, hbelow⟩
    exact hbelow.mono fun _ => Frame.GrowsTo.of_adopt
  case adds =>
    intro _ _ _ _ _ _ _ _ h
    exact GrowsTo.mono (fun _ => Frame.GrowsTo.of_add) h

/-- **The block that a run gives** holds what the open blocks of its first state have collected. -/
theorem run_growsTo {s : Nesting} (h : s.run.value = .ok whole) : GrowsTo s.top whole s.below := by
  fun_induction run s with
  | case1 s outcome hstep => exact growsTo_of_step (by rwa [hstep])
  | case2 s s' hstep ih => exact growsTo_of_step (by rw [hstep]; exact ih h)

/-- The place of the innermost block is given by the blocks around it. -/
theorem exists_growsTo (hf : GrowsTo f whole below) (hg : GrowsTo g whole below) :
    ∃ b, f.GrowsTo b ∧ g.GrowsTo b := by
  induction below generalizing f g with
  | nil => exact ⟨whole, hf, hg⟩
  | cons outer below ih =>
    obtain ⟨b, hb, hbelow⟩ := hf
    obtain ⟨c, hc, hbelow'⟩ := hg
    obtain ⟨around, haround, haround'⟩ := ih hbelow hbelow'
    have hsame : (outer.adopt b).children.toList = (outer.adopt c).children.toList := by
      refine (List.prefix_of_prefix_length_le haround.2 haround'.2 ?_).eq_of_length ?_ <;> simp [Frame.adopt]
    have hbc : b = c := by simpa [Frame.adopt] using hsame
    exact ⟨b, hb, hbc ▸ hc⟩

end Nesting

end NestedStyles
