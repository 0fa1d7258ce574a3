import NestedStyles.Color
import NestedStyles.Proofs.Preliminaries

/-!
# The notation of colors

The name of a color function says how the texts of its arguments are put together. The notation is given here by
itself, with a rule for each name, and the text that is built for a call is shown to follow it. There is no text only
if a channel is too large to be computed.

- `Color.Denotes`: the notation of a color, by the name and the texts of the arguments.
- `Color.build_eq_ok_iff`: the text that is built for a named call.
- `Color.build_problems`: what there is to remark about it.
-/

namespace NestedStyles

namespace Color

/-- The names of the color functions. -/
def names : List String := ["hex", "rgb", "rgba", "hsl", "hsla", "color3"]

/-- Exactly `n` components: surplus arguments are dropped, and zeros stand in the places of missing ones. -/
def padded (n : Nat) (arguments : List String) : List String := (arguments ++ List.replicate n "0").take n

/-- The text of a color, by the name of the function and the texts of the arguments. There is none if a channel is too
large to be computed. -/
inductive Denotes : String → List String → String → Prop
  | hexAbsent : Denotes "hex" [] "#000000"
  | hexMarked {a : String} {more : List String} (h : a.toList.head? = some '#') : Denotes "hex" (a :: more) a
  | hexPlain {a : String} {more : List String} (h : a.toList.head? ≠ some '#') : Denotes "hex" (a :: more) ("#" ++ a)
  | rgb (arguments : List String) : Denotes "rgb" arguments ("rgb(" ++ ", ".intercalate (arguments.take 3) ++ ")")
  | rgba (arguments : List String) : Denotes "rgba" arguments ("rgba(" ++ ", ".intercalate (arguments.take 4) ++ ")")
  | hsl {arguments : List String} {hue saturation light : String}
      (h : padded 3 arguments = [hue, saturation, light]) :
      Denotes "hsl" arguments ("hsl(" ++ hue ++ ", " ++ saturation ++ "%, " ++ light ++ "%)")
  | hsla {arguments : List String} {hue saturation light alpha : String}
      (h : padded 4 arguments = [hue, saturation, light, alpha]) :
      Denotes "hsla" arguments ("hsla(" ++ hue ++ ", " ++ saturation ++ "%, " ++ light ++ "%, " ++ alpha ++ ")")
  | channels {arguments : List String} {r g b : String} {red green blue : Int} (h : padded 3 arguments = [r, g, b])
      (hred : channel r = .ok red) (hgreen : channel g = .ok green) (hblue : channel b = .ok blue) :
      Denotes "color3" arguments
        ("rgb(" ++ toString red ++ ", " ++ toString green ++ ", " ++ toString blue ++ ")")
  | unknown {name : String} (arguments : List String) (h : name ∉ names) : Denotes name arguments "#000000"

theorem Denotes.ne_empty {name text : String} {arguments : List String} (h : Denotes name arguments text) :
    text ≠ "" := by
  cases h with
  | hexMarked h =>
    rintro rfl
    cases h
  | hexAbsent | hexPlain | rgb | rgba | hsl | hsla | channels | unknown => simp

/-- The components, one by one. -/
theorem padded_eq (n : Nat) (arguments : List String) :
    padded n arguments = (List.range n).map (component arguments) := by
  refine List.ext_getElem (by simp [padded]) fun i hpadded hrange => ?_
  have hi : i < n := by simpa using hrange
  simp only [padded, List.getElem_take, List.getElem_append, List.getElem_map, List.getElem_range, component]
  split
  · next hgiven => simp [List.getD, List.getElem?_eq_getElem hgiven]
  · next hmissing => simp [List.getD, List.getElem?_eq_none (Nat.not_lt.1 hmissing)]

theorem padded_three (arguments : List String) :
    padded 3 arguments = [component arguments 0, component arguments 1, component arguments 2] := padded_eq 3 arguments

theorem padded_four (arguments : List String) :
    padded 4 arguments =
      [component arguments 0, component arguments 1, component arguments 2, component arguments 3] :=
  padded_eq 4 arguments

theorem write_hsl (arguments : List String) :
    write .hsl arguments =
      .ok ("hsl(" ++ component arguments 0 ++ ", " ++ component arguments 1 ++ "%, " ++ component arguments 2
        ++ "%)") := by
  have hcomma : "%, " = "%" ++ ", " := rfl
  have hclose : "%)" = "%" ++ ")" := rfl
  simp only [write, list, String.intercalate_cons_cons, String.intercalate_singleton, hcomma, hclose,
    String.append_assoc]

theorem write_hsla (arguments : List String) :
    write .hsla arguments =
      .ok ("hsla(" ++ component arguments 0 ++ ", " ++ component arguments 1 ++ "%, " ++ component arguments 2 ++ "%, "
        ++ component arguments 3 ++ ")") := by
  have hcomma : "%, " = "%" ++ ", " := rfl
  simp only [write, list, String.intercalate_cons_cons, String.intercalate_singleton, hcomma, String.append_assoc]

/-- The channels are computed one after the other, and each of them may be too large. -/
theorem write_unitRgb_eq_ok_iff {arguments : List String} {text : String} :
    write .unitRgb arguments = .ok text ↔
      ∃ red, channel (component arguments 0) = .ok red ∧ ∃ green, channel (component arguments 1) = .ok green ∧
        ∃ blue, channel (component arguments 2) = .ok blue ∧
          "rgb(" ++ toString red ++ ", " ++ toString green ++ ", " ++ toString blue ++ ")" = text := by
  simp only [write, bind_eq_ok_iff, Except.ok.injEq, list, String.intercalate_cons_cons,
    String.intercalate_singleton, String.append_assoc]

/-- A form writes the notation of its name. -/
theorem denotes_of_write {form : Form} {arguments : List String} {text : String}
    (h : write form arguments = .ok text) : Denotes form.name arguments text := by
  cases form with
  | hex =>
    cases arguments with
    | nil =>
      cases h
      exact .hexAbsent
    | cons a more =>
      rw [write, List.headD_cons, Except.ok.injEq] at h
      by_cases hmarked : a.toList.head? = some '#'
      · rw [if_pos hmarked] at h
        exact h ▸ .hexMarked hmarked
      · rw [if_neg hmarked] at h
        exact h ▸ .hexPlain hmarked
  | rgb => exact Except.ok.inj h ▸ .rgb arguments
  | rgba => exact Except.ok.inj h ▸ .rgba arguments
  | hsl => exact Except.ok.inj ((write_hsl arguments).symm.trans h) ▸ .hsl (padded_three arguments)
  | hsla => exact Except.ok.inj ((write_hsla arguments).symm.trans h) ▸ .hsla (padded_four arguments)
  | unitRgb =>
    obtain ⟨red, hred, green, hgreen, blue, hblue, rfl⟩ := write_unitRgb_eq_ok_iff.1 h
    exact .channels (padded_three arguments) hred hgreen hblue

theorem build_of_form (form : Form) (arguments : List String) :
    (build form.name arguments).1 = write form arguments := by
  rw [build, form.ofName?_name]

theorem not_mem_names_iff {name : String} : name ∉ names ↔ Form.ofName? name = none := by
  constructor
  · intro hunknown
    cases hform : Form.ofName? name with
    | none => rfl
    | some form =>
      have hknown : ∀ form : Form, form.name ∈ names := by
        intro form
        cases form <;> decide +kernel
      exact absurd (Form.name_of_ofName? hform ▸ hknown form) hunknown
  · intro hnone hmem
    have hall : ∀ known ∈ names, Form.ofName? known ≠ none := by decide +kernel
    exact hall name hmem hnone

/-- **The color of a named call** is its notation. -/
theorem build_eq_ok_iff {name : String} {arguments : List String} {text : String} :
    (build name arguments).1 = .ok text ↔ Denotes name arguments text := by
  constructor
  · intro h
    cases hform : Form.ofName? name with
    | none =>
      simp only [build, hform, Except.ok.injEq] at h
      exact h ▸ .unknown arguments (not_mem_names_iff.2 hform)
    | some form =>
      obtain rfl := Form.name_of_ofName? hform
      exact denotes_of_write ((build_of_form form arguments).symm.trans h)
  · intro h
    cases h with
    | hexAbsent => exact build_of_form .hex []
    | hexMarked hmarked =>
      refine (build_of_form .hex _).trans ?_
      rw [write, List.headD_cons, if_pos hmarked]
    | hexPlain hplain =>
      refine (build_of_form .hex _).trans ?_
      rw [write, List.headD_cons, if_neg hplain]
    | rgb => exact build_of_form .rgb arguments
    | rgba => exact build_of_form .rgba arguments
    | hsl hpadded =>
      rw [padded_three] at hpadded
      cases hpadded
      exact (build_of_form .hsl arguments).trans (write_hsl arguments)
    | hsla hpadded =>
      rw [padded_four] at hpadded
      cases hpadded
      exact (build_of_form .hsla arguments).trans (write_hsla arguments)
    | channels hpadded hred hgreen hblue =>
      rw [padded_three] at hpadded
      cases hpadded
      refine (build_of_form .unitRgb arguments).trans ?_
      exact write_unitRgb_eq_ok_iff.2 ⟨_, hred, _, hgreen, _, hblue, rfl⟩
    | unknown _ hunknown => rw [build, not_mem_names_iff.1 hunknown]

/-! ## Remarks -/

/-- What there is to remark about a name with so many arguments. -/
def remarks (name : String) (given : Nat) : List Problem :=
  if name ∉ names then [.unknownColor name]
  else if name = "hsl" ∧ given < 3 then [.fewComponents name 3 given]
  else if name = "hsla" ∧ given < 4 then [.fewComponents name 4 given]
  else []

theorem build_problems (name : String) (arguments : List String) :
    (build name arguments).2 = remarks name arguments.length := by
  cases hform : Form.ofName? name with
  | none => rw [build, hform, remarks, if_pos (not_mem_names_iff.2 hform)]
  | some form =>
    have hknown : ¬name ∉ names := by
      rw [not_mem_names_iff, hform]
      exact Option.some_ne_none form
    rw [build, hform, remarks, if_neg hknown]
    obtain rfl := Form.name_of_ofName? hform
    have hother : ∀ {other : String} {n : Nat}, form.name ≠ other → ¬(form.name = other ∧ arguments.length < n) :=
      fun hne h => hne h.1
    cases form with
    | hsl =>
      rw [if_neg (hother (by decide +kernel) : ¬(Form.hsl.name = "hsla" ∧ _))]
      by_cases hfew : arguments.length < 3
      · exact (if_pos hfew).trans (if_pos ⟨rfl, hfew⟩).symm
      · exact (if_neg hfew).trans (if_neg fun h => hfew h.2).symm
    | hsla =>
      rw [if_neg (hother (by decide +kernel) : ¬(Form.hsla.name = "hsl" ∧ _))]
      by_cases hfew : arguments.length < 4
      · exact (if_pos hfew).trans (if_pos ⟨rfl, hfew⟩).symm
      · exact (if_neg hfew).trans (if_neg fun h => hfew h.2).symm
    | hex | rgb | rgba | unitRgb =>
      rw [if_neg (hother (by decide +kernel)), if_neg (hother (by decide +kernel))]
      simp only [Form.required, Nat.not_lt_zero, if_false]

end Color

end NestedStyles
