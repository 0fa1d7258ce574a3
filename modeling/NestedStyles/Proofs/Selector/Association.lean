import NestedStyles.Selector

/-!
# Fragments can be combined before they are resolved

A fragment inside a fragment inside a block: it does not matter whether the outer fragment is resolved first and the
inner one against the result, or the two are combined and then resolved. There are two exceptions. An empty outer
fragment leaves no first character to go by, and an ampersand of the inner fragment is lost when the outer one has
none to put in its place.

- `Selector.resolve_eq_append`: a fragment without ampersands is appended, with a space before it or without.
- `Selector.substitute_substitute`: replacing in a replaced text.
- `Selector.resolve_resolve`: two fragments.
- `Selector.foldl_resolve_assoc`: two fragments, and a chain of them.
-/

namespace NestedStyles.Selector

/-! ## Ampersands are replaced -/

theorem toList_substitute (parent fragment : String) :
    (substitute parent fragment).toList = fragment.toList.flatMap fun c => if c = '&' then parent.toList else [c] :=
  String.toList_ofList

theorem substitute_append (parent a b : String) :
    substitute parent (a ++ b) = substitute parent a ++ substitute parent b := by
  refine String.toList_inj.1 ?_
  simp only [toList_substitute, String.toList_append, List.flatMap_append]

theorem substitute_eq_self (parent : String) {fragment : String} (h : '&' ∉ fragment.toList) :
    substitute parent fragment = fragment := by
  refine String.toList_inj.1 ?_
  rw [toList_substitute]
  generalize fragment.toList = cs at h
  induction cs with
  | nil => rfl
  | cons c cs ih =>
    obtain ⟨hc, hcs⟩ := not_or.1 (mt List.mem_cons.2 h)
    rw [List.flatMap_cons, if_neg (Ne.symm hc), ih hcs, List.singleton_append]

/-- What replaces an ampersand may itself have ampersands to replace. -/
theorem substitute_substitute (p q r : String) :
    substitute p (substitute q r) = substitute (substitute p q) r := by
  refine String.toList_inj.1 ?_
  simp only [toList_substitute, List.flatMap_assoc]
  congr 1
  funext c
  split
  · rfl
  · next hc => rw [List.flatMap_singleton, if_neg hc]

theorem ampersand_mem_substitute {q r : String} (hq : '&' ∈ q.toList) (hr : '&' ∈ r.toList) :
    '&' ∈ (substitute q r).toList := by
  rw [toList_substitute, List.mem_flatMap]
  exact ⟨'&', hr, by rwa [if_pos rfl]⟩

/-! ## Fragments without ampersands are appended -/

/-- What stands between a selector and a fragment that is appended to it. -/
def joint (fragment : String) : String := if fragment.toList.head? = some ':' then "" else " "

theorem ampersand_not_mem_joint (fragment : String) : '&' ∉ (joint fragment).toList := by
  unfold joint
  split <;> decide

/-- Only the first character decides. -/
theorem joint_append {q : String} (hq : q ≠ "") (s : String) : joint (q ++ s) = joint q := by
  obtain ⟨c, cs, hcs⟩ := List.exists_cons_of_ne_nil fun hnil => hq (String.toList_eq_nil_iff.1 hnil)
  simp only [joint, String.toList_append, hcs, List.cons_append, List.head?_cons]

theorem resolve_eq_substitute (parent : String) {fragment : String} (h : '&' ∈ fragment.toList) :
    resolve parent fragment = substitute parent fragment := by
  rw [resolve, if_pos (List.contains_iff_mem.2 h)]

theorem resolve_eq_append (parent : String) {fragment : String} (h : '&' ∉ fragment.toList) :
    resolve parent fragment = parent ++ (joint fragment ++ fragment) := by
  rw [resolve, if_neg (mt List.contains_iff_mem.1 h), joint]
  split
  · rw [String.empty_append]
  · rw [String.append_assoc]

theorem resolve_ne_empty {q : String} (hq : q ≠ "") {r : String} (h : '&' ∉ r.toList ∨ '&' ∈ q.toList) :
    resolve q r ≠ "" := by
  by_cases hr : '&' ∈ r.toList
  · intro hempty
    have hmem := ampersand_mem_substitute (h.resolve_left (not_not_intro hr)) hr
    rw [← resolve_eq_substitute q hr, hempty] at hmem
    cases hmem
  · rw [resolve_eq_append q hr]
    exact fun hempty => hq (String.append_eq_empty_iff.1 hempty).1

theorem ampersand_mem_resolve {q : String} (hq : '&' ∈ q.toList) (r : String) : '&' ∈ (resolve q r).toList := by
  by_cases hr : '&' ∈ r.toList
  · rw [resolve_eq_substitute q hr]
    exact ampersand_mem_substitute hq hr
  · rw [resolve_eq_append q hr, String.toList_append]
    exact List.mem_append_left _ hq

/-! ## Two fragments -/

theorem resolve_resolve (p : String) {q r : String} (hq : q ≠ "") (h : '&' ∉ r.toList ∨ '&' ∈ q.toList) :
    resolve p (resolve q r) = resolve (resolve p q) r := by
  by_cases hr : '&' ∈ r.toList
  · have hq' : '&' ∈ q.toList := h.resolve_left (not_not_intro hr)
    calc resolve p (resolve q r) = substitute p (substitute q r) := by
          rw [resolve_eq_substitute p (ampersand_mem_resolve hq' r), resolve_eq_substitute q hr]
      _ = substitute (substitute p q) r := substitute_substitute p q r
      _ = resolve (resolve p q) r := by rw [resolve_eq_substitute _ hr, resolve_eq_substitute p hq']
  -- the inner fragment and what stands before it have no ampersands, so they stay at the end on both sides
  have htail : '&' ∉ (joint r ++ r).toList := by
    rw [String.toList_append, List.mem_append]
    exact not_or.2 ⟨ampersand_not_mem_joint r, hr⟩
  rw [resolve_eq_append q hr, resolve_eq_append _ hr]
  by_cases hq' : '&' ∈ q.toList
  · have hmem : '&' ∈ (q ++ (joint r ++ r)).toList := by
      rw [String.toList_append]
      exact List.mem_append_left _ hq'
    rw [resolve_eq_substitute p hmem, resolve_eq_substitute p hq', substitute_append, substitute_eq_self p htail]
  · have hmem : '&' ∉ (q ++ (joint r ++ r)).toList := by
      rw [String.toList_append, List.mem_append]
      exact not_or.2 ⟨hq', htail⟩
    rw [resolve_eq_append p hmem, resolve_eq_append p hq', joint_append hq]
    simp only [String.append_assoc]

/-- **Resolving is associative**, if the outer fragment is not empty and has an ampersand for those of the inner one:
nesting two fragments gives the selector of their combination, and so does nesting a chain of them. -/
theorem foldl_resolve_assoc (p : String) {q : String} (hq : q ≠ "") :
    (∀ r : String, '&' ∉ r.toList ∨ '&' ∈ q.toList → resolve p (resolve q r) = resolve (resolve p q) r) ∧
      ∀ fragments : List String, (∀ r ∈ fragments, '&' ∉ r.toList) ∨ '&' ∈ q.toList →
        resolve p (fragments.foldl resolve q) = fragments.foldl resolve (resolve p q) := by
  refine ⟨fun r h => resolve_resolve p hq h, fun fragments h => ?_⟩
  induction fragments generalizing q with
  | nil => rfl
  | cons r rest ih =>
    -- the combined fragment is again not empty, and keeps an ampersand if the outer one has it
    have hr : '&' ∉ r.toList ∨ '&' ∈ q.toList := h.imp_left fun hall => hall r List.mem_cons_self
    have hrest : (∀ s ∈ rest, '&' ∉ s.toList) ∨ '&' ∈ (resolve q r).toList :=
      h.imp (fun hall s hs => hall s (List.mem_cons_of_mem r hs)) fun hmem => ampersand_mem_resolve hmem r
    rw [List.foldl_cons, List.foldl_cons, ih (resolve_ne_empty hq hr) hrest, resolve_resolve p hq hr]

/-- Ampersands in both fragments, and a chain that ends without them. -/
theorem foldl_resolve_assoc_menu :
    "li &" ≠ "" ∧ '&' ∈ "li &".toList ∧
      resolve "ul" (resolve "li &" "&:hover + &") = "li ul:hover + li ul" ∧
      resolve (resolve "ul" "li &") "&:hover + &" = "li ul:hover + li ul" ∧
      resolve "ul" (["&.on", ":hover", "b"].foldl resolve "li &") = "li ul.on:hover b" ∧
      ["&.on", ":hover", "b"].foldl resolve (resolve "ul" "li &") = "li ul.on:hover b" := by
  have hne : "li &" ≠ "" := by decide +kernel
  have hmem : '&' ∈ "li &".toList := by decide +kernel
  obtain ⟨htwo, hchain⟩ := foldl_resolve_assoc "ul" hne
  have hpair : resolve "ul" (resolve "li &" "&:hover + &") = "li ul:hover + li ul" := by decide +kernel
  have hnested : resolve "ul" (["&.on", ":hover", "b"].foldl resolve "li &") = "li ul.on:hover b" := by decide +kernel
  exact ⟨hne, hmem, hpair, (htwo _ (.inr hmem)).symm.trans hpair, hnested, (hchain _ (.inr hmem)).symm.trans hnested⟩

end NestedStyles.Selector
