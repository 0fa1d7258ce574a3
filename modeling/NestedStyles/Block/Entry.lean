import NestedStyles.Block
import NestedStyles.Selector
import NestedStyles.Value

/-!
# The entries of a block

An entry is `key = value`, a nested block under a key or a bracketed selector, or a function literal under a pseudo
key. Text that is none of these is skipped.

- `Declaration.readFunction`: reads a function literal.
- `Entry.read`: reads an entry.
- `Entry.read_cases`: what an entry can be.
- `Declaration.readFunction_suffix`, `Entry.read_suffix`: what is left is a suffix of what was given.
-/

namespace NestedStyles

/-! ## Bracketed selectors -/

/-- The selector after an opening bracket: a literal, if there is one, and the closing bracket. -/
def bracketedSelector (tokens : List Token) : Parsed String :=
  match tokens with
  | [] => (expect "]" []).map fun _ => ""
  | t :: ts =>
    if t.kind = .literal then (expect "]" ts).map fun _ => t.text else (expect "]" (t :: ts)).map fun _ => ""

theorem bracketedSelector_suffix (tokens : List Token) : (bracketedSelector tokens).rest <:+ tokens := by
  unfold bracketedSelector
  split
  · exact expect_suffix ..
  · split
    · exact (expect_suffix ..).trans (List.suffix_cons ..)
    · exact expect_suffix ..

/-! ## Function literals -/

namespace Declaration

/-- The declaration of a key; none if the value is absent. -/
def ofPair? (key value : String) : Option Declaration :=
  if value = "" then none else some ⟨Selector.hyphenate key, value⟩

/-- The declarations up to `end`. -/
def readAll : List Token → Parsed (Except Fault (List Declaration))
  | [] => ⟨.ok [], [], []⟩
  | t :: ts =>
    if t.isNamed "end" then ⟨.ok [], t :: ts, []⟩
    else if !t.isIdentifier then readAll ts
    else if !nextIsMark ts "=" then readAll (skipComma ts)
    else
      let v := Value.read ts.tail
      match v.value with
      | .error fault => ⟨.error fault, v.rest, v.notes⟩
      | .ok value =>
        let more := readAll (skipComma v.rest)
        ⟨more.value.map ((ofPair? t.text value).toList ++ ·), more.rest, v.notes ++ more.notes⟩
termination_by tokens => tokens.length
decreasing_by
  · exact Nat.lt_succ_self _
  · exact Nat.lt_succ_of_le (skipComma_suffix ts).length_le
  · have hvalue := (Value.read_suffix ts.tail).trans (List.tail_suffix ts)
    exact Nat.lt_succ_of_le ((skipComma_suffix _).trans hvalue).length_le

/-- Behind a key and an equals sign: its value, and the declarations behind that. -/
theorem readAll_cons (t : Token) (ts : List Token) :
    readAll (t :: ts) =
      if t.isNamed "end" then ⟨.ok [], t :: ts, []⟩
      else if !t.isIdentifier then readAll ts
      else if !nextIsMark ts "=" then readAll (skipComma ts)
      else (Value.read ts.tail).andThen fun value rest =>
        (readAll (skipComma rest)).map (Except.map ((ofPair? t.text value).toList ++ ·)) := by
  rw [readAll]
  split
  · rfl
  split
  · rfl
  split
  · rfl
  · cases hvalue : (Value.read ts.tail).value with
    | error fault => simp [Parsed.andThen, hvalue]
    | ok value => simp [Parsed.andThen, Parsed.after, Parsed.map, hvalue]

theorem readAll_suffix (tokens : List Token) : (readAll tokens).rest <:+ tokens := by
  fun_induction readAll tokens with
  | case1 => exact List.suffix_refl _
  | case2 => exact List.suffix_refl _
  | case3 t ts _ _ ih => exact ih.trans (List.suffix_cons ..)
  | case4 t ts _ _ _ ih => exact ih.trans ((skipComma_suffix ts).trans (List.suffix_cons ..))
  | case5 t ts =>
    exact (Value.read_suffix ts.tail).trans ((List.tail_suffix ts).trans (List.suffix_cons ..))
  | case6 t ts _ _ _ v _ _ _ ih =>
    exact ih.trans ((skipComma_suffix v.rest).trans ((Value.read_suffix ts.tail).trans
      ((List.tail_suffix ts).trans (List.suffix_cons ..))))

/-- Read `function ( )`, declarations and `end`. -/
def readFunction (tokens : List Token) : Parsed (Except Fault (List Declaration)) :=
  let head := expect "function" tokens
  let opened := expect "(" head.rest
  let closed := expect ")" opened.rest
  let body := (readAll closed.rest).andThen fun declarations rest => (expect "end" rest).map fun _ => .ok declarations
  body.after (head.notes ++ opened.notes ++ closed.notes)

theorem readFunction_suffix (tokens : List Token) : (readFunction tokens).rest <:+ tokens :=
  (Parsed.andThen_suffix (readAll_suffix _) fun _ rest => expect_suffix "end" rest).trans <|
    (expect_suffix ")" _).trans <| (expect_suffix "(" _).trans (expect_suffix "function" _)

end Declaration

/-! ## Entries -/

/-- What an entry contributes. An `opening` is the selector of a nested block whose brace comes next. -/
inductive Entry where
  | nothing
  | declaration (d : Declaration)
  | nested (b : Block)
  | opening (selector : String)
deriving DecidableEq, Repr

namespace Entry

/-- Read the entry that begins with `t`, inside a block with selector `parent`. -/
def read (parent : String) (t : Token) (ts : List Token) : Parsed (Except Fault Entry) :=
  if t.isMark "[" then
    let fragment := bracketedSelector ts
    let equals := expect "=" fragment.rest
    let notes := fragment.notes ++ equals.notes
    if nextIsMark equals.rest "\x7b" then
      ⟨.ok (.opening (Selector.resolve parent fragment.value)), equals.rest, notes⟩
    else ⟨.ok .nothing, skipComma equals.rest, notes⟩
  else if !t.isIdentifier then ⟨.ok .nothing, ts, []⟩
  else if !nextIsMark ts "=" then ⟨.ok .nothing, skipComma ts, []⟩
  else if Selector.isPseudo t.text && nextIsNamed ts.tail "function" then
    (Declaration.readFunction ts.tail).andThen fun declarations rest =>
      ⟨.ok (.nested ⟨Selector.pseudo parent t.text, declarations, []⟩), skipComma rest, []⟩
  else if nextIsMark ts.tail "\x7b" then
    ⟨.ok (.opening (Selector.resolve parent (Selector.hyphenate t.text))), ts.tail, []⟩
  else
    (Value.read ts.tail).andThen fun value rest =>
      ⟨.ok ((Declaration.ofPair? t.text value).elim .nothing .declaration), skipComma rest, []⟩

/-- Behind a key and an equals sign: a function, a block, or a value. -/
theorem read_of_key {t : Token} {ts : List Token} (hbracket : ¬t.isMark "[" = true) (hkey : ¬(!t.isIdentifier) = true)
    (hequals : ¬(!nextIsMark ts "=") = true) (parent : String) :
    read parent t ts =
      if Selector.isPseudo t.text && nextIsNamed ts.tail "function" then
        (Declaration.readFunction ts.tail).andThen fun declarations rest =>
          ⟨.ok (.nested ⟨Selector.pseudo parent t.text, declarations, []⟩), skipComma rest, []⟩
      else if nextIsMark ts.tail "\x7b" then
        ⟨.ok (.opening (Selector.resolve parent (Selector.hyphenate t.text))), ts.tail, []⟩
      else
        (Value.read ts.tail).andThen fun value rest =>
          ⟨.ok ((Declaration.ofPair? t.text value).elim .nothing .declaration), skipComma rest, []⟩ := by
  rw [read, if_neg hbracket, if_neg hkey, if_neg hequals]

/-- **What an entry can be**, with one case for each way to read it: a bracketed selector with or without a block behind
it, a token that begins no entry, a key alone, and a key with a function, a block or a value. -/
theorem read_cases {motive : Parsed (Except Fault Entry) → Prop} (parent : String) (t : Token) (ts : List Token)
    (bracketed : t.isMark "[" = true → nextIsMark (expect "=" (bracketedSelector ts).rest).rest "\x7b" = true →
      motive ⟨.ok (.opening (Selector.resolve parent (bracketedSelector ts).value)),
        (expect "=" (bracketedSelector ts).rest).rest,
        (bracketedSelector ts).notes ++ (expect "=" (bracketedSelector ts).rest).notes⟩)
    (unopened : t.isMark "[" = true → nextIsMark (expect "=" (bracketedSelector ts).rest).rest "\x7b" = false →
      motive ⟨.ok .nothing, skipComma (expect "=" (bracketedSelector ts).rest).rest,
        (bracketedSelector ts).notes ++ (expect "=" (bracketedSelector ts).rest).notes⟩)
    (skipped : t.isIdentifier = false → motive ⟨.ok .nothing, ts, []⟩)
    (lone : t.isIdentifier = true → nextIsMark ts "=" = false → motive ⟨.ok .nothing, skipComma ts, []⟩)
    (function : t.isIdentifier = true → nextIsMark ts "=" = true → Selector.isPseudo t.text = true →
      nextIsNamed ts.tail "function" = true →
      motive ((Declaration.readFunction ts.tail).andThen fun declarations rest =>
        ⟨.ok (.nested ⟨Selector.pseudo parent t.text, declarations, []⟩), skipComma rest, []⟩))
    (block : t.isIdentifier = true → nextIsMark ts "=" = true → nextIsMark ts.tail "\x7b" = true →
      motive ⟨.ok (.opening (Selector.resolve parent (Selector.hyphenate t.text))), ts.tail, []⟩)
    (pair : t.isIdentifier = true → nextIsMark ts "=" = true → nextIsMark ts.tail "\x7b" = false →
      motive ((Value.read ts.tail).andThen fun value rest =>
        ⟨.ok ((Declaration.ofPair? t.text value).elim .nothing .declaration), skipComma rest, []⟩)) :
    motive (read parent t ts) := by
  unfold read
  dsimp only
  split
  · next hbracket =>
    split
    · next hbrace => exact bracketed hbracket hbrace
    · next hbrace => exact unopened hbracket (Bool.eq_false_iff.2 hbrace)
  split
  · next hkey => exact skipped (by simpa using hkey)
  next hkey =>
  have hkey' : t.isIdentifier = true := by simpa using hkey
  split
  · next hequals => exact lone hkey' (by simpa using hequals)
  next hequals =>
  have hequals' : nextIsMark ts "=" = true := by simpa using hequals
  split
  · next hfunction =>
    obtain ⟨hpseudo, hword⟩ := Bool.and_eq_true_iff.1 hfunction
    exact function hkey' hequals' hpseudo hword
  split
  · next hbrace => exact block hkey' hequals' hbrace
  · next hbrace => exact pair hkey' hequals' (Bool.eq_false_iff.2 hbrace)

/-- An entry takes at least its first token. -/
theorem read_suffix (parent : String) (t : Token) (ts : List Token) : (read parent t ts).rest <:+ ts := by
  have hequals := (expect_suffix "=" _).trans (bracketedSelector_suffix ts)
  have htail := List.tail_suffix ts
  apply read_cases (motive := fun p => p.rest <:+ ts)
  case bracketed => exact fun _ _ => hequals
  case unopened => exact fun _ _ => (skipComma_suffix _).trans hequals
  case skipped => exact fun _ => List.suffix_refl ts
  case lone => exact fun _ _ => skipComma_suffix ts
  case function =>
    intro _ _ _ _
    exact Parsed.andThen_suffix ((Declaration.readFunction_suffix _).trans htail) fun _ rest => skipComma_suffix rest
  case block => exact fun _ _ _ => htail
  case pair =>
    intro _ _ _
    exact Parsed.andThen_suffix ((Value.read_suffix _).trans htail) fun _ rest => skipComma_suffix rest

end Entry

end NestedStyles
