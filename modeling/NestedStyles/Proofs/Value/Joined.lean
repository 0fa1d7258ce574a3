import NestedStyles.Value
import NestedStyles.Proofs.Token.Lexed

/-!
# The tokens and the text of a value

How far a value reaches does not depend on its text, and its text does not depend on what was read before: both are
given here by themselves. `Value.span` cuts the tokens of a value off, and `Value.join` writes tokens one after the
other with a space at the places that ask for one. `Value.gather` does both in one go and keeps a space ready behind a
sign, which trimming takes back at the end.

- `Value.gather_eq_written`: gathering takes the tokens of the span and goes over them.
- `Value.trim_written`: what it has written, without blanks at the ends, is the joined text.
- `Value.read_eq_join`: both for the reading of a value.
- `Value.span_unbroken`: tokens that belong together are not cut.
-/

namespace NestedStyles.Value

/-! ## How far a value reaches -/

/-- The tokens of a value and those behind it, with the brackets of `depth` open. -/
def span (depth : Depth) : List Token → List Token × List Token
  | [] => ([], [])
  | t :: ts =>
    if depth.isZero && stops t ts then ([], t :: ts)
    else (t :: (span (depth.track t) ts).1, (span (depth.track t) ts).2)

theorem span_append (depth : Depth) (tokens : List Token) :
    (span depth tokens).1 ++ (span depth tokens).2 = tokens := by
  induction tokens generalizing depth with
  | nil => rfl
  | cons t ts ih =>
    rw [span]
    split
    · rfl
    · rw [List.cons_append, ih]

/-- The text of a value after all of its tokens; `beyond` is the token behind the last of them. -/
def written (previous : Option Token) (text : String) (beyond : Option Token) : List Token → String
  | [] => text
  | t :: ts => written (some t) (extend text previous t (ts.head?.or beyond)) beyond ts

theorem gather_eq_written (depth : Depth) (previous : Option Token) (text : String) (tokens : List Token) :
    gather depth previous text tokens =
      ⟨written previous text (span depth tokens).2.head? (span depth tokens).1, (span depth tokens).2, []⟩ := by
  induction tokens generalizing depth previous text with
  | nil => rfl
  | cons t ts ih =>
    rw [gather, span]
    split
    · rfl
    · -- the token behind `t` is the same, whether it belongs to the value or not
      have hnext : (span (depth.track t) ts).1.head?.or (span (depth.track t) ts).2.head? = ts.head? := by
        rw [← List.head?_append, span_append]
      rw [ih, written, hnext]

/-! ## Joining tokens -/

/-- What stands between two tokens: a space before a sign between operands, behind one unless `end` follows, and
between words. -/
def gap (previous : Token) (afterSign : Bool) (t : Token) (following : Option Token) : String :=
  if isBinarySign (some previous) t following || (afterSign && !t.isNamed "end") || needsGap (some previous) t then " "
  else ""

/-- The text of the tokens behind `previous`; `afterSign` says whether that one is a sign between operands. -/
def joinAfter (previous : Token) (afterSign : Bool) (beyond : Option Token) : List Token → String
  | [] => ""
  | t :: ts =>
    gap previous afterSign t (ts.head?.or beyond) ++ t.render ++
      joinAfter t (isBinarySign (some previous) t (ts.head?.or beyond)) beyond ts

/-- The text of the tokens of a value; `beyond` is the token behind the last of them. -/
def join (beyond : Option Token) : List Token → String
  | [] => ""
  | t :: ts => t.render ++ joinAfter t false beyond ts

/-- The space that is kept ready behind a sign between operands. -/
def ready (afterSign : Bool) (following : Option Token) : String :=
  if afterSign && !following.any (·.isNamed "end") then " " else ""

theorem endsOperand_of_isSign {t : Token} (h : isSign t = true) : endsOperand t = false := by
  simp only [isSign, Bool.or_eq_true, Token.isMark_iff] at h
  rcases h with ⟨hkind, htext⟩ | ⟨hkind, htext⟩ <;>
    simp [endsOperand, Token.isWordLike, Token.isMark, hkind, htext]

/-- Of the marks, only an opening parenthesis begins an operand. -/
theorem startsOperand_of_isMark {t : Token} {mark : String} (h : t.isMark mark = true) (hmark : mark ≠ "(") :
    startsOperand t = false := by
  simp [startsOperand, Token.isWordLike, Token.isMark_of_ne h hmark, (Token.isMark_iff.1 h).1]

theorem needsGap_of_isSign {previous : Token} (h : isSign previous = true) (t : Token) :
    needsGap (some previous) t = false := by
  have hends := endsOperand_of_isSign h
  simp only [endsOperand, Bool.or_eq_false_iff] at hends
  simp [needsGap, hends]

theorem isBinarySign_of_isSign {previous : Token} (h : isSign previous = true) (t : Token) (following : Option Token) :
    isBinarySign (some previous) t following = false := by
  simp [isBinarySign, endsOperand_of_isSign h]

theorem spaced_eq {text : String} (h : Text.Tight text.toList) : spaced text = text ++ " " := by
  obtain ⟨front, c, hlast, hc⟩ := h.last
  have hne : text ≠ "" := fun he => h.ne_nil (by simp [he])
  have hback : text.back? ≠ some ' ' := by
    rw [String.back?_eq, hlast, List.getLast?_concat]
    rintro he
    cases he
    exact absurd hc (by decide)
  rw [spaced, if_neg (not_or.2 ⟨hne, hback⟩)]

/-- One more token behind tight text: the gap before it, its own text, and a space that is kept ready. -/
theorem extend_eq_gap {text : String} (htext : Text.Tight text.toList) {previous : Token} {afterSign : Bool}
    (hsign : afterSign = true → isSign previous = true) (t : Token) (following : Option Token) :
    extend (text ++ ready afterSign (some t)) (some previous) t following =
      text ++ (gap previous afterSign t following ++ t.render) ++
        ready (isBinarySign (some previous) t following) following := by
  cases afterSign with
  | true =>
    have hprevious := hsign rfl
    simp [extend, gap, ready, isBinarySign_of_isSign hprevious, needsGap_of_isSign hprevious, String.append_assoc]
  | false =>
    simp only [ready, Bool.false_and, Bool.false_eq_true, if_false, String.append_empty]
    by_cases hbinary : isBinarySign (some previous) t following = true
    · rw [extend, if_pos hbinary, spaced_eq htext]
      cases hend : following.any (·.isNamed "end") <;> simp [gap, hbinary, String.append_assoc]
    · by_cases hgap : needsGap (some previous) t = true <;>
        simp [extend, gap, hbinary, hgap, String.append_assoc]

theorem tight_gap {text : String} (htext : Text.Tight text.toList) {t : Token} (ht : t.Lexed) (space : String) :
    Text.Tight (text ++ (space ++ t.render)).toList := by
  simpa using htext.append ht.render_tight space.toList

theorem joinAfter_tight {text : String} (htext : Text.Tight text.toList) (previous : Token) (afterSign : Bool)
    (beyond : Option Token) {ts : List Token} (hts : ∀ t ∈ ts, t.Lexed) :
    Text.Tight (text ++ joinAfter previous afterSign beyond ts).toList := by
  induction ts generalizing text previous afterSign with
  | nil => simpa [joinAfter] using htext
  | cons t ts ih =>
    have hmore := ih (tight_gap htext (hts t List.mem_cons_self) (gap previous afterSign t (ts.head?.or beyond))) t
      (isBinarySign (some previous) t (ts.head?.or beyond)) fun u hu => hts u (List.mem_cons_of_mem t hu)
    simpa only [joinAfter, String.append_assoc] using hmore

/-- Behind tight text, the tokens of a source are written as they are joined; at most a space is left over. -/
theorem written_eq_joinAfter {text : String} (htext : Text.Tight text.toList) (previous : Token) (afterSign : Bool)
    (hsign : afterSign = true → isSign previous = true) (beyond : Option Token) {ts : List Token}
    (hts : ∀ t ∈ ts, t.Lexed) :
    ∃ space, (space = "" ∨ space = " ") ∧
      written (some previous) (text ++ ready afterSign (ts.head?.or beyond)) beyond ts =
        text ++ joinAfter previous afterSign beyond ts ++ space := by
  induction ts generalizing text previous afterSign with
  | nil =>
    refine ⟨ready afterSign beyond, ?_, by simp [written, joinAfter]⟩
    unfold ready
    split
    · exact .inr rfl
    · exact .inl rfl
  | cons t ts ih =>
    have htight := tight_gap htext (hts t List.mem_cons_self) (gap previous afterSign t (ts.head?.or beyond))
    have hsign' : isBinarySign (some previous) t (ts.head?.or beyond) = true → isSign t = true := by
      intro h
      simp only [isBinarySign, Bool.and_eq_true] at h
      exact h.1.1
    obtain ⟨space, hspace, hwritten⟩ := ih htight t _ hsign' fun u hu => hts u (List.mem_cons_of_mem t hu)
    refine ⟨space, hspace, ?_⟩
    rw [written, List.head?_cons, Option.some_or, extend_eq_gap htext hsign]
    simpa only [joinAfter, String.append_assoc] using hwritten

theorem join_tight {t : Token} {ts : List Token} (h : ∀ u ∈ t :: ts, u.Lexed) (beyond : Option Token) :
    Text.Tight (join beyond (t :: ts)).toList :=
  joinAfter_tight (h t List.mem_cons_self).render_tight t false beyond fun u hu => h u (List.mem_cons_of_mem t hu)

/-- **The text of a value** is its tokens joined. -/
theorem trim_written {t : Token} {ts : List Token} (h : ∀ u ∈ t :: ts, u.Lexed) (beyond : Option Token) :
    Text.trim (written none "" beyond (t :: ts)) = join beyond (t :: ts) := by
  have hjoin := join_tight h beyond
  obtain ⟨space, hspace, hwritten⟩ :=
    written_eq_joinAfter (h t List.mem_cons_self).render_tight t false (by simp) beyond
      fun u hu => h u (List.mem_cons_of_mem t hu)
  have hstart : extend "" none t (ts.head?.or beyond) = t.render ++ ready false (ts.head?.or beyond) := by
    simp [extend, isBinarySign, needsGap, ready]
  rw [written, hstart, hwritten]
  rcases hspace with rfl | rfl
  · rw [String.append_empty]
    exact hjoin.trim_eq
  · exact hjoin.trim_space

theorem joinAfter_beyond {beyond : Option Token} {ts : List Token}
    (h : ∀ t ∈ ts.getLast?, ∀ previous, isBinarySign previous t beyond = false) (previous : Token) (afterSign : Bool) :
    joinAfter previous afterSign beyond ts = joinAfter previous afterSign none ts := by
  induction ts generalizing previous afterSign with
  | nil => rfl
  | cons t ts ih =>
    have hsign : isBinarySign (some previous) t (ts.head?.or beyond) =
        isBinarySign (some previous) t (ts.head?.or none) := by
      cases ts with
      | nil =>
        rw [List.head?_nil, Option.none_or, Option.none_or, h t rfl]
        simp [isBinarySign]
      | cons u us => rfl
    have hlast : ∀ u ∈ ts.getLast?, ∀ previous, isBinarySign previous u beyond = false := by
      intro u hu
      refine h u ?_
      rw [List.getLast?_cons, Option.mem_def.1 hu]
      rfl
    simp only [joinAfter, gap, hsign, ih hlast]

/-- What is behind a value matters to its text only if the last token is a sign that finds an operand there. -/
theorem join_beyond {beyond : Option Token} {ts : List Token}
    (h : ∀ t ∈ ts.getLast?, ∀ previous, isBinarySign previous t beyond = false) : join beyond ts = join none ts := by
  cases ts with
  | nil => rfl
  | cons t ts =>
    cases ts with
    | nil => rfl
    | cons u us => rw [join, join, joinAfter_beyond (by rwa [List.getLast?_cons_cons] at h)]

theorem joinAfter_append (previous : Token) (afterSign : Bool) (beyond : Option Token) (ts : List Token) (u : Token)
    (us : List Token) :
    ∃ space more, joinAfter previous afterSign beyond (ts ++ u :: us) =
      joinAfter previous afterSign (some u) ts ++ (space ++ u.render ++ more) := by
  induction ts generalizing previous afterSign with
  | nil => exact ⟨_, _, by rw [List.nil_append, joinAfter, joinAfter, String.empty_append]⟩
  | cons t ts ih =>
    have hnext : (ts ++ u :: us).head?.or beyond = ts.head?.or (some u) := by
      cases ts <;> rfl
    obtain ⟨space, more, hmore⟩ := ih t (isBinarySign (some previous) t (ts.head?.or (some u)))
    exact ⟨space, more, by rw [List.cons_append, joinAfter, joinAfter, hnext, hmore, String.append_assoc,
      String.append_assoc, String.append_assoc, String.append_assoc]⟩

/-- More tokens make a longer text. -/
theorem join_append_ne {u : Token} (hu : u.Lexed) (t : Token) (ts us : List Token) (beyond : Option Token) :
    join beyond (t :: ts ++ u :: us) ≠ join (some u) (t :: ts) := by
  obtain ⟨space, more, hmore⟩ := joinAfter_append t false beyond ts u us
  have hrender : u.render ≠ "" := fun h => hu.render_tight.ne_nil (by simp [h])
  rw [List.cons_append, join, join, hmore, ← String.append_assoc]
  simp [hrender]

/-! ## Reading -/

/-- **Reading a value** that is neither a color nor absent takes the tokens of the span and gives them joined. -/
theorem read_eq_join {t : Token} {ts : List Token} (hcolor : (t.isNamed "color" && nextIsMark ts ".") = false)
    (habsent : isAbsent t ts = false) (hlexed : ∀ u ∈ (span {} (t :: ts)).1, u.Lexed) :
    read (t :: ts) =
      ⟨.ok (join (span {} (t :: ts)).2.head? (span {} (t :: ts)).1), (span {} (t :: ts)).2, []⟩ := by
  have htrim : Text.trim (written none "" (span {} (t :: ts)).2.head? (span {} (t :: ts)).1) =
      join (span {} (t :: ts)).2.head? (span {} (t :: ts)).1 := by
    cases hspan : (span {} (t :: ts)).1 with
    | nil => rfl
    | cons v vs => exact trim_written (hspan ▸ hlexed) _
  rw [read, if_neg (by simp [hcolor]), if_neg (by simp [habsent]), gather_eq_written, Parsed.map, htrim]

/-! ## Tokens that are one value -/

/-- Whether tokens belong together, with the brackets of `depth` open before them: none of them ends the value while
no bracket is open, and no bracket is open at the end. -/
def isUnbroken (depth : Depth) : List Token → Bool
  | [] => depth.isZero
  | t :: ts => !(depth.isZero && stops t ts) && isUnbroken (depth.track t) ts

/-- The marks that stop a value are the comma and the closing brace. -/
theorem nextIsMark_of_stops {u : Token} {rest : List Token} (h : stops u rest = true) {mark : String}
    (hcomma : mark ≠ ",") (hbrace : mark ≠ "\x7d") : nextIsMark (u :: rest) mark = false := by
  simp only [stops, Bool.or_eq_true, Bool.and_eq_true, Token.isMark_iff, Token.isNamed_iff, Token.isIdentifier_iff] at h
  rcases h with ((⟨hkind, htext⟩ | ⟨hkind, htext⟩) | ⟨hkind, htext⟩) | ⟨hkind, -⟩
  · simp [nextIsMark, Token.isMark, htext, hcomma.symm]
  · simp [nextIsMark, Token.isMark, htext, hbrace.symm]
  · simp [nextIsMark, Token.isMark, hkind]
  · simp [nextIsMark, Token.isMark, hkind]

theorem nextIsMark_append {vs rest : List Token} {mark : String} (h : nextIsMark rest mark = false) :
    nextIsMark (vs ++ rest) mark = nextIsMark vs mark := by
  cases vs with
  | nil => exact h
  | cons t ts => rfl

theorem Depth.eq_of_isZero {depth : Depth} (h : depth.isZero = true) : depth = {} := by
  obtain ⟨paren, bracket, brace⟩ := depth
  simp only [Depth.isZero, Bool.and_eq_true, beq_iff_eq] at h
  obtain ⟨⟨rfl, rfl⟩, rfl⟩ := h
  rfl

/-- Tokens that belong together are all in the value, which goes on behind them. -/
theorem span_unbroken {depth : Depth} {vs rest : List Token} (hvs : isUnbroken depth vs = true)
    (hrest : nextIsMark rest "=" = false) :
    span depth (vs ++ rest) = (vs ++ (span {} rest).1, (span {} rest).2) := by
  induction vs generalizing depth with
  | nil => rw [Depth.eq_of_isZero hvs, List.nil_append, List.nil_append]
  | cons t ts ih =>
    simp only [isUnbroken, Bool.and_eq_true] at hvs
    have hsame : stops t (ts ++ rest) = stops t ts := by simp only [stops, nextIsMark_append hrest]
    have hgoes : ¬(depth.isZero && stops t ts) = true := by
      simpa only [Bool.not_eq_true, Bool.not_eq_true'] using hvs.1
    rw [List.cons_append, span, hsame, if_neg hgoes, ih hvs.2, List.cons_append]

theorem span_of_stops {u : Token} {rest : List Token} (h : stops u rest = true) :
    span {} (u :: rest) = ([], u :: rest) :=
  if_pos (by rw [h]; rfl)

end NestedStyles.Value
