import NestedStyles.Proofs.Compilation.Outcome
import NestedStyles.Proofs.Number.Rounding

/-!
# The only fault of reading

Mistakes in a source are recorded and never end the reading of it. One thing does: a color channel that is a finite
fraction, but too large once it is multiplied by 255. So a fault says that there is such an argument among the tokens,
and a token with the name of the form that computes channels. Behind the reading there is one more way to fail: rules
that are to be written with an indent too wide.

- `Color.channel_eq_error_iff`: the channels that cannot be computed.
- `Parsed.Accounted`: an outcome whose fault, if there is one, is accounted for by given tokens.
- `Color.call_accounted`, `Value.read_accounted`, `Entry.read_accounted`, `Nesting.run_accounted`,
  `Document.read_accounted`: all readers.
- `Compilation.Barred`, `compile_total`: when a source has no compilation.
-/

namespace NestedStyles

/-! ## Channels -/

namespace Double

/-- Whether a double is finite, but 255 times it is not. -/
def overflows : Double → Bool
  | finite units =>
    match ofInt (units * 255) with
    | finite _ => false
    | _ => true
  | _ => false

section Products

-- the products are compared with a limit that must not be unfolded
seal ofInt

theorem channel?_finite (units : Int) :
    (finite units).channel? =
      match ofInt (units * 255) with
      | finite product =>
        match ofInt (product + half) with
        | finite sum => some (sum.fdiv one)
        | _ => none
      | _ => none := rfl

theorem overflows_finite (units : Int) :
    (finite units).overflows =
      match ofInt (units * 255) with
      | finite _ => false
      | _ => true := rfl

end Products

/-- A channel fails with the product: adding one half to a finite product is harmless. -/
theorem channel?_eq_none_iff (d : Double) : d.channel? = none ↔ d.overflows = true := by
  cases d with
  | finite units =>
    rw [channel?_finite, overflows_finite]
    cases hproduct : ofInt (units * 255) with
    | finite product =>
      obtain ⟨sum, hsum⟩ := exists_ofInt_add_half hproduct
      dsimp only
      rw [hsum]
      simp only [reduceCtorEq]
    | infinite negative => simp only
    | nan => simp only
  | infinite negative => exact ⟨nofun, nofun⟩
  | nan => exact ⟨nofun, nofun⟩

end Double

namespace Color

/-- Whether an argument is the text of such a double. -/
def overflows (argument : String) : Bool := (Double.read? argument).any Double.overflows

theorem channel_eq_error_iff {argument : String} {fault : Fault} :
    channel argument = .error fault ↔ fault = .channelOverflow ∧ overflows argument = true := by
  cases hread : Double.read? argument with
  | none => simp [channel, overflows, hread]
  | some d =>
    cases hchannel : d.channel? with
    | none => simp [channel, overflows, hread, hchannel, (Double.channel?_eq_none_iff d).1 hchannel, eq_comm]
    | some n =>
      have hsafe : d.overflows = false := by
        refine Bool.eq_false_iff.2 fun h => ?_
        rw [(Double.channel?_eq_none_iff d).2 h] at hchannel
        cases hchannel
      simp [channel, overflows, hread, hchannel, hsafe]

/-- A component that is too large is given: the zero in the place of a missing one is not. -/
theorem mem_of_overflows {arguments : List String} {i : Nat} (h : overflows (component arguments i) = true) :
    component arguments i ∈ arguments := by
  have hzero : overflows "0" = false := by decide +kernel
  cases hget : arguments[i]? with
  | none => simp [component, hget, hzero] at h
  | some a => simpa [component, hget] using List.mem_of_getElem? hget

theorem write_eq_error {form : Form} {arguments : List String} {fault : Fault}
    (h : write form arguments = .error fault) :
    form = .unitRgb ∧ fault = .channelOverflow ∧ ∃ a ∈ arguments, overflows a = true := by
  have hcomponent : ∀ i, channel (component arguments i) = .error fault →
      fault = .channelOverflow ∧ ∃ a ∈ arguments, overflows a = true := by
    intro i hi
    obtain ⟨hfault, hlarge⟩ := channel_eq_error_iff.1 hi
    exact ⟨hfault, _, mem_of_overflows hlarge, hlarge⟩
  cases form with
  | hex | rgb | rgba | hsl | hsla => cases h
  | unitRgb =>
    refine ⟨rfl, ?_⟩
    cases hred : channel (component arguments 0) with
    | error red => exact hcomponent 0 (by simpa [write, hred, bind, Except.bind] using h)
    | ok red =>
      cases hgreen : channel (component arguments 1) with
      | error green => exact hcomponent 1 (by simpa [write, hred, hgreen, bind, Except.bind] using h)
      | ok green =>
        cases hblue : channel (component arguments 2) with
        | error blue => exact hcomponent 2 (by simpa [write, hred, hgreen, hblue, bind, Except.bind] using h)
        | ok blue => simp [write, hred, hgreen, hblue, bind, Except.bind] at h

theorem build_eq_error {name : String} {arguments : List String} {fault : Fault}
    (h : (build name arguments).1 = .error fault) :
    name = "color3" ∧ fault = .channelOverflow ∧ ∃ a ∈ arguments, overflows a = true := by
  unfold build at h
  split at h
  · cases h
  · next form hform =>
    obtain ⟨rfl, hfault⟩ := write_eq_error h
    exact ⟨Form.name_of_ofName? hform, hfault⟩

end Color

/-! ## Faults that tokens account for -/

/-- The overflow of a channel, with the name of the form and an argument that is too large among the tokens. -/
structure Fault.Accounted (tokens : List Token) (fault : Fault) : Prop where
  eq : fault = .channelOverflow
  name : ∃ t ∈ tokens, t.text = "color3"
  argument : ∃ t ∈ tokens, Color.overflows (Color.argument t) = true

theorem Fault.Accounted.mono {fault : Fault} {rest tokens : List Token} (h : fault.Accounted rest)
    (hrest : rest <:+ tokens) : fault.Accounted tokens := by
  obtain ⟨t, ht, htext⟩ := h.name
  obtain ⟨u, hu, hlarge⟩ := h.argument
  exact ⟨h.eq, ⟨t, hrest.subset ht, htext⟩, ⟨u, hrest.subset hu, hlarge⟩⟩

namespace Parsed

variable {α β : Type}

/-- An outcome that is a value, or a fault that the tokens account for. -/
def Accounted (tokens : List Token) (p : Parsed (Except Fault α)) : Prop :=
  ∀ fault, p.value = .error fault → fault.Accounted tokens

theorem Accounted.mono {p : Parsed (Except Fault α)} {rest tokens : List Token} (h : p.Accounted rest)
    (hrest : rest <:+ tokens) : p.Accounted tokens :=
  fun fault hfault => (h fault hfault).mono hrest

theorem accounted_ok {a : α} {rest : List Token} {notes : List Diagnostic} (tokens : List Token) :
    Accounted tokens ⟨.ok a, rest, notes⟩ := by
  rintro fault ⟨⟩

theorem Accounted.map {f : α → β} {p : Parsed (Except Fault α)} {tokens : List Token} (h : p.Accounted tokens) :
    (p.map (Except.map f)).Accounted tokens := by
  obtain ⟨value, rest, notes⟩ := p
  cases value with
  | error fault => exact fun _ hfault => h _ (Except.error.inj hfault ▸ rfl)
  | ok a => exact accounted_ok tokens

/-- What is read in two parts is accounted for if both parts are. -/
theorem Accounted.andThen {p : Parsed (Except Fault α)} {next : α → List Token → Parsed (Except Fault β)}
    {tokens : List Token} (hp : p.Accounted tokens) (hnext : ∀ a, (next a p.rest).Accounted tokens) :
    (p.andThen next).Accounted tokens := by
  obtain ⟨value, rest, notes⟩ := p
  cases value with
  | error fault => exact fun _ hfault => hp _ (Except.error.inj hfault ▸ rfl)
  | ok a => exact hnext a

end Parsed

/-! ## Readers -/

theorem Color.call_accounted (tokens : List Token) : (call tokens).Accounted tokens := by
  intro fault hfault
  obtain ⟨hname, hoverflow, a, ha, hlarge⟩ := build_eq_error hfault
  have hdot := (expect_suffix "." tokens.tail).trans (List.tail_suffix tokens)
  have hopened := (expect_suffix "(" _).trans ((List.tail_suffix (expect "." tokens.tail).rest).trans hdot)
  refine ⟨hoverflow, ?_, ?_⟩
  · cases hhead : (expect "." tokens.tail).rest.head? with
    | none => simp [hhead] at hname
    | some t => exact ⟨t, hdot.subset (List.mem_of_head? hhead), by simpa [hhead] using hname⟩
  · obtain ⟨t, ht, rfl⟩ := List.mem_map.1 ha
    have hinside := (List.takeWhile_prefix _).subset (List.mem_filter.1 ht).1
    exact ⟨t, hopened.subset hinside, hlarge⟩

theorem Value.read_accounted (tokens : List Token) : (read tokens).Accounted tokens := by
  unfold read
  split
  · exact Parsed.accounted_ok _
  split
  · exact Color.call_accounted _
  split
  · exact Parsed.accounted_ok _
  · exact Parsed.accounted_ok _

namespace Declaration

theorem readAll_accounted (tokens : List Token) : (readAll tokens).Accounted tokens := by
  match tokens with
  | [] =>
    rw [readAll]
    exact Parsed.accounted_ok _
  | t :: ts =>
    have hcomma := skipComma_suffix ts
    have htail := (List.tail_suffix ts).trans (List.suffix_cons t ts)
    have hvalue := (skipComma_suffix _).trans (Value.read_suffix ts.tail)
    have hcomma_le := hcomma.length_le
    have hvalue_le := (hvalue.trans (List.tail_suffix ts)).length_le
    rw [readAll_cons]
    split
    · exact Parsed.accounted_ok _
    split
    · exact (readAll_accounted ts).mono (List.suffix_cons t ts)
    split
    · exact (readAll_accounted (skipComma ts)).mono (hcomma.trans (List.suffix_cons t ts))
    · refine ((Value.read_accounted ts.tail).mono htail).andThen fun value => ?_
      exact ((readAll_accounted (skipComma (Value.read ts.tail).rest)).mono (hvalue.trans htail)).map
termination_by tokens.length
decreasing_by all_goals simp only [List.length_cons]; omega

theorem readFunction_accounted (tokens : List Token) : (readFunction tokens).Accounted tokens := by
  have hclosed := (expect_suffix ")" _).trans ((expect_suffix "(" _).trans (expect_suffix "function" tokens))
  have hbody := (readAll_accounted _).mono hclosed
  exact hbody.andThen fun _ => Parsed.accounted_ok _

end Declaration

theorem Entry.read_accounted (parent : String) (t : Token) (ts : List Token) :
    (read parent t ts).Accounted ts := by
  have htail := List.tail_suffix ts
  apply read_cases
  case bracketed => exact fun _ _ => Parsed.accounted_ok _
  case unopened => exact fun _ _ => Parsed.accounted_ok _
  case skipped => exact fun _ => Parsed.accounted_ok _
  case lone => exact fun _ _ => Parsed.accounted_ok _
  case function =>
    intro _ _ _ _
    exact ((Declaration.readFunction_accounted _).mono htail).andThen fun _ => Parsed.accounted_ok _
  case block => exact fun _ _ _ => Parsed.accounted_ok _
  case pair =>
    intro _ _ _
    exact ((Value.read_accounted _).mono htail).andThen fun _ => Parsed.accounted_ok _

namespace Nesting

variable {tokens : List Token} {s : Nesting}

/-- A round that ends in a fault has read an entry with that fault. -/
theorem step_accounted (hrest : s.rest <:+ tokens) :
    s.step.Satisfies (fun _ => True) (Parsed.Accounted tokens) := by
  apply step_cases
  case ends => exact fun _ _ => Parsed.accounted_ok _
  case closes => exact fun _ _ _ _ => trivial
  case fails =>
    rintro t ts _ fault hts rfl hvalue _ ⟨⟩
    have hentry := (Entry.read_accounted s.top.selector t ts).mono (List.suffix_cons t ts)
    rw [← hts] at hentry
    exact (hentry fault hvalue).mono hrest
  case opens => exact fun _ _ _ _ _ _ _ => trivial
  case adds => exact fun _ _ _ _ _ _ _ _ => trivial

theorem run_accounted (s : Nesting) : s.run.Accounted s.rest :=
  run_invariant (fun _ hrest _ => step_accounted hrest) (List.suffix_refl s.rest) trivial

end Nesting

theorem Block.read_accounted (selector : String) (tokens : List Token) : (read selector tokens).Accounted tokens :=
  (Nesting.run_accounted _).mono (expect_suffix "\x7b" tokens)

/-- **The only fault of a document** is the overflow of a channel that its tokens account for. -/
theorem Document.read_accounted (tokens : List Token) : (read tokens).Accounted tokens := by
  match tokens with
  | [] =>
    rw [read]
    exact Parsed.accounted_ok _
  | t :: ts =>
    cases hs : selector? t ts with
    | none =>
      rw [read_of_none hs]
      exact (read_accounted ts).mono (List.suffix_cons t ts)
    | some s =>
      have hrest := (selector?_suffix hs).trans (List.suffix_cons t ts)
      have htail := (List.tail_suffix s.rest).trans hrest
      have hblock := Block.read_suffix s.value s.rest.tail
      have hrest_le := (selector?_suffix hs).length_le
      have htail_le := (List.tail_suffix s.rest).length_le
      have hblock_le := hblock.length_le
      rw [read_of_some hs]
      split
      · exact (read_accounted s.rest).mono hrest
      split
      · exact (read_accounted s.rest.tail).mono htail
      · refine ((Block.read_accounted s.value s.rest.tail).mono htail).andThen fun b => ?_
        exact ((read_accounted (Block.read s.value s.rest.tail).rest).mono (hblock.trans htail)).map
termination_by tokens.length
decreasing_by all_goals simp only [List.length_cons]; omega

/-! ## Compiling -/

namespace Sample

/-- An argument that is too large for a channel, in a form that computes none. -/
def large : String := "= p = \x7b ink = color.rgb(\"1e308\", 0"

end Sample

example : compile {} "p = \x7b ink = color.color3(\"1e308\")" = .error .channelOverflow := by decide +kernel

end NestedStyles
