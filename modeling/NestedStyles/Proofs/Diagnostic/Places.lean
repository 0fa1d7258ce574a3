import NestedStyles.Proofs.Diagnostic.Trail
import NestedStyles.Proofs.Token.Order

/-!
# The places of diagnostics

A diagnostic about a document has the place of a token, or none at all. One about a mistake of form says what it found
there, and those come in the order of the source, the ones about the end of the input last. Remarks about colors keep
no such order, since they are made behind the call and have the place of its name.

- `Diagnostic.Placed`: what the place of a diagnostic says about it.
- `Diagnostic.InOrder`: the order of the source.
- `Trail.placed`, `Trail.pairwise_inOrder`: the diagnostics of any trail.
- `Document.read_placed_inOrder`: the diagnostics about a document.
-/

namespace NestedStyles

/-- The line and the column of a token as diagnostics give them. -/
def Token.place (t : Token) : Int × Int := (t.position.line, t.position.column)

namespace Diagnostic

/-- The line and the column, if both are known. -/
def place? (d : Diagnostic) : Option (Int × Int) := d.line.bind fun line => d.column.map fun column => (line, column)

/-- Whether `d` may come before `e` in the order of the source: if `e` has a place, so has `d`, on an earlier line or on
the same one and not to the right of it. -/
def InOrder (d e : Diagnostic) : Prop := ∀ q ∈ e.place?, ∃ p ∈ d.place?, p.1 < q.1 ∨ p.1 = q.1 ∧ p.2 ≤ q.2

instance (d e : Diagnostic) : Decidable (d.InOrder e) :=
  inferInstanceAs (Decidable (∀ q ∈ e.place?, ∃ p ∈ d.place?, p.1 < q.1 ∨ p.1 = q.1 ∧ p.2 ≤ q.2))

/-- A diagnostic with a place has that of a token, and if it is about a mistake of form, then every token there is the
one it has found. Without a place it has found the end. -/
structure Placed (tokens : List Token) (d : Diagnostic) : Prop where
  line_iff_column : d.line = none ↔ d.column = none
  exists_token : ∀ place, d.place? = some place → ∃ t ∈ tokens, place = t.place
  found : d.isSyntactic = true → ∀ t ∈ tokens, d.place? = some t.place →
    ∃ wanted, d.message = "Expected '" ++ wanted ++ "' but got '" ++ t.text ++ "'"
  found_end : d.isSyntactic = true → d.place? = none → ∃ wanted, d.message = "Expected '" ++ wanted ++ "' but got 'EOF'"

theorem place?_about (problem : Problem) (t : Option Token) : (about problem t).place? = t.map Token.place := by
  cases t <;> rfl

theorem isSyntactic_about (problem : Problem) (t : Option Token) :
    (about problem t).isSyntactic = (problem.kind == .syntactic) := by
  cases t <;> rfl

theorem line_about_iff (problem : Problem) (t : Option Token) :
    (about problem t).line = none ↔ (about problem t).column = none := by
  cases t with
  | none => exact Iff.rfl
  | some t => exact iff_of_false nofun nofun

theorem message_expected_none (wanted : String) :
    (Problem.expected wanted none).message = "Expected '" ++ wanted ++ "' but got 'EOF'" := by
  show "Expected '" ++ wanted ++ "' but got '" ++ "EOF" ++ "'" = "Expected '" ++ wanted ++ "' but got 'EOF'"
  rw [String.append_assoc, String.append_assoc]
  rfl

/-- A remark has the place of a token, if it has one, and says nothing about what was found there. -/
theorem placed_remark {tokens : List Token} {problem : Problem} {t : Option Token} (hkind : problem.kind = .semantic)
    (ht : ∀ u ∈ t, u ∈ tokens) : (about problem t).Placed tokens where
  line_iff_column := line_about_iff problem t
  exists_token place hplace := by
    rw [place?_about, Option.map_eq_some_iff] at hplace
    obtain ⟨u, hu, rfl⟩ := hplace
    exact ⟨u, ht u hu, rfl⟩
  found h := by simp [isSyntactic_about, hkind] at h
  found_end h := by simp [isSyntactic_about, hkind] at h

end Diagnostic

section Ordered

variable {tokens start here there rest : List Token} {notes : List Diagnostic}
  (htokens : tokens.Pairwise fun t u => t.position.Before u.position)
include htokens

theorem Token.eq_of_place {t u : Token} (ht : t ∈ tokens) (hu : u ∈ tokens) (hplace : t.place = u.place) : t = u := by
  have hline : t.position.line = u.position.line := Int.ofNat.inj (congrArg Prod.fst hplace)
  have hcolumn : t.position.column = u.position.column := Int.ofNat.inj (congrArg Prod.snd hplace)
  refine eq_of_position htokens ht hu ?_
  rw [← show Position.mk t.position.line t.position.column = t.position from rfl, hline, hcolumn]

/-- What is missing is missing at the first token of what is left there, or at the end. -/
theorem Diagnostic.placed_missing (hhere : here <:+ tokens) (wanted : String) :
    (about (.expected wanted (here.head?.map Token.text)) here.head?).Placed tokens := by
  refine ⟨line_about_iff _ _, fun place hplace => ?_, fun _ u hu hplace => ?_, fun _ hplace => ?_⟩
  · rw [place?_about, Option.map_eq_some_iff] at hplace
    obtain ⟨t, ht, rfl⟩ := hplace
    exact ⟨t, hhere.subset (List.mem_of_head? ht), rfl⟩
  · rw [place?_about, Option.map_eq_some_iff] at hplace
    obtain ⟨t, ht, hsame⟩ := hplace
    obtain rfl := Token.eq_of_place htokens (hhere.subset (List.mem_of_head? ht)) hu hsame
    rw [ht]
    exact ⟨wanted, rfl⟩
  · rw [place?_about, Option.map_eq_none_iff] at hplace
    rw [hplace]
    exact ⟨wanted, message_expected_none wanted⟩

/-- What comes later on a way stands later in the source. -/
theorem Diagnostic.inOrder_of_suffix (hhere : here <:+ tokens) (hthere : there <:+ here) (problem problem' : Problem) :
    (about problem here.head?).InOrder (about problem' there.head?) := by
  rw [InOrder, place?_about, place?_about]
  match here, there with
  | _, [] => exact fun _ hq => nomatch hq
  | [], u :: us => exact absurd (List.suffix_nil.1 hthere) (List.cons_ne_nil u us)
  | t :: ts, u :: us =>
    rintro _ ⟨⟩
    refine ⟨t.place, rfl, ?_⟩
    rcases List.suffix_cons_iff.1 hthere with hsame | hbehind
    · obtain ⟨rfl, -⟩ := List.cons.inj hsame
      exact .inr ⟨rfl, Int.le_refl _⟩
    · have hpairs := htokens.sublist hhere.sublist
      have hbefore : t.position.Before u.position :=
        (List.pairwise_cons.1 hpairs).1 u (hbehind.subset List.mem_cons_self)
      unfold Position.Before at hbefore
      simp only [Token.place]
      omega

namespace Trail

/-- **Every diagnostic of a trail is placed.** -/
theorem placed (h : Trail tokens start notes rest) (hstart : start <:+ tokens) : ∀ d ∈ notes, d.Placed tokens := by
  intro d hd
  rcases h.missing_or_remark hd with ⟨wanted, here, hhere, -, rfl⟩ | ⟨problem, about, hremark, habout, rfl⟩
  · exact Diagnostic.placed_missing htokens (hhere.trans hstart) wanted
  · exact Diagnostic.placed_remark hremark.kind_eq habout

omit htokens in
/-- A diagnostic about a mistake of form reports what is missing at a place on the way. -/
theorem exists_missing (h : Trail tokens start notes rest) {d : Diagnostic} (hd : d ∈ notes)
    (hsyntactic : d.isSyntactic = true) :
    ∃ wanted here, here <:+ start ∧ Missing wanted here ∧
      d = .about (.expected wanted (here.head?.map Token.text)) here.head? := by
  rcases h.missing_or_remark hd with hmissing | ⟨problem, about, hremark, -, rfl⟩
  · exact hmissing
  · simp [Diagnostic.isSyntactic_about, hremark.kind_eq] at hsyntactic

/-- **What is missing is reported in the order of the source.** -/
theorem pairwise_inOrder (h : Trail tokens start notes rest) (hstart : start <:+ tokens) :
    (notes.filter Diagnostic.isSyntactic).Pairwise Diagnostic.InOrder := by
  induction h with
  | quiet => exact .nil
  | missing hhere _ hnotes ih =>
    rw [List.filter_cons_of_pos (by rw [Diagnostic.isSyntactic_about]; rfl)]
    refine .cons (fun e he => ?_) (ih (hhere.trans hstart))
    obtain ⟨hmem, hsyntactic⟩ := List.mem_filter.1 he
    obtain ⟨wanted, there, hthere, -, rfl⟩ := hnotes.exists_missing hmem hsyntactic
    exact Diagnostic.inOrder_of_suffix htokens (hhere.trans hstart) hthere _ _
  | remark hremark _ _ ih =>
    rw [List.filter_cons_of_neg (by simp [Diagnostic.isSyntactic_about, hremark.kind_eq])]
    exact ih hstart

end Trail

end Ordered

/-- **Diagnostics point at tokens, and mistakes of form are reported in the order of the source.** Every diagnostic
about a source has the place of one of its tokens or none. If it is about a mistake of form, its message names the
token at its place, or the end; and of these none comes behind one that stands later in the source. -/
theorem Document.read_placed_inOrder (source : String) :
    (∀ d ∈ (read (Token.significant source)).notes, d.Placed (Token.significant source)) ∧
      ((read (Token.significant source)).notes.filter Diagnostic.isSyntactic).Pairwise Diagnostic.InOrder := by
  have htokens := Token.significant_pairwise source
  have htrail : Trail (Token.significant source) _ _ _ := read_trail (List.suffix_refl _)
  exact ⟨htrail.placed htokens (List.suffix_refl _), htrail.pairwise_inOrder htokens (List.suffix_refl _)⟩

namespace Sample

/-- A call without its first parenthesis and of an unknown name, and then a selector and two blocks that are not
closed. The call is remarked on when it is over, at the place of its name. -/
def unclosedCall : String := "p = \x7b\n ink = color.mix\n \x7b 1 ), [\"a\" = \x7b gap = 1"

end Sample

theorem Document.read_placed_inOrder_unclosedCall :
    (read (Token.significant Sample.unclosedCall)).notes =
        [⟨.expected "(" (some "\x7b"), some 3, some 2⟩, ⟨.unknownColor "mix", some 2, some 14⟩,
          ⟨.expected "]" (some "="), some 3, some 14⟩, ⟨.expected "\x7d" none, none, none⟩,
          ⟨.expected "\x7d" none, none, none⟩] ∧
      (∀ d ∈ (read (Token.significant Sample.unclosedCall)).notes, d.Placed (Token.significant Sample.unclosedCall)) ∧
      ¬(read (Token.significant Sample.unclosedCall)).notes.Pairwise Diagnostic.InOrder ∧
      ((read (Token.significant Sample.unclosedCall)).notes.filter Diagnostic.isSyntactic).Pairwise
        Diagnostic.InOrder := by
  have hnotes : (read (Token.significant Sample.unclosedCall)).notes =
      [⟨.expected "(" (some "\x7b"), some 3, some 2⟩, ⟨.unknownColor "mix", some 2, some 14⟩,
        ⟨.expected "]" (some "="), some 3, some 14⟩, ⟨.expected "\x7d" none, none, none⟩,
        ⟨.expected "\x7d" none, none, none⟩] := by decide +kernel
  obtain ⟨hplaced, hordered⟩ := read_placed_inOrder Sample.unclosedCall
  refine ⟨hnotes, hplaced, ?_, hordered⟩
  rw [hnotes]
  decide

end NestedStyles
