import NestedStyles.Block.Nesting

/-!
# Documents

A document is a sequence of `selector = block`. Whatever else stands between them is skipped.

- `Document.read`: reads a document to the end of its tokens.
- `Document.rest_eq_nil`: nothing is left unless there was a fault.
- `Document.read_suffix`: what it leaves is a suffix of what it was given.
-/

namespace NestedStyles.Document

/-- The selector that begins with `t`, if one does: an identifier, or a literal in brackets. -/
def selector? (t : Token) (ts : List Token) : Option (Parsed String) :=
  if t.isIdentifier then some ⟨t.text, ts, []⟩
  else if t.isMark "[" then some (bracketedSelector ts)
  else none

theorem selector?_suffix {t : Token} {ts : List Token} {s : Parsed String} (h : selector? t ts = some s) :
    s.rest <:+ ts := by
  unfold selector? at h
  split at h
  · cases h; exact List.suffix_refl _
  split at h
  · cases h; exact bracketedSelector_suffix ts
  · cases h

def read : List Token → Parsed (Except Fault (List Block))
  | [] => ⟨.ok [], [], []⟩
  | t :: ts =>
    match hs : selector? t ts with
    | none => read ts
    | some s =>
      have : s.rest.length ≤ ts.length := (selector?_suffix hs).length_le
      have : s.rest.tail.length ≤ s.rest.length := (List.tail_suffix s.rest).length_le
      if !nextIsMark s.rest "=" then (read s.rest).after s.notes
      else if !nextIsMark s.rest.tail "\x7b" then (read s.rest.tail).after s.notes
      else
        have : (Block.read s.value s.rest.tail).rest.length ≤ s.rest.tail.length := (Block.read_suffix ..).length_le
        let block := Block.read s.value s.rest.tail
        match block.value with
        | .error fault => ⟨.error fault, block.rest, s.notes ++ block.notes⟩
        | .ok b =>
          let more := read block.rest
          ⟨more.value.map (b :: ·), more.rest, s.notes ++ block.notes ++ more.notes⟩
termination_by tokens => tokens.length
decreasing_by all_goals simp only [List.length_cons]; omega

/-- A block and all blocks behind it. -/
def readFrom (selector : String) (tokens : List Token) : Parsed (Except Fault (List Block)) :=
  (Block.read selector tokens).andThen fun b rest => (read rest).map (Except.map (b :: ·))

theorem read_of_none {t : Token} {ts : List Token} (h : selector? t ts = none) : read (t :: ts) = read ts := by
  rw [read]
  split
  · rfl
  · next h' => rw [h] at h'; cases h'

/-- Behind a selector: a block and the blocks behind it, if an equals sign and a brace announce one. -/
theorem read_of_some {t : Token} {ts : List Token} {s : Parsed String} (h : selector? t ts = some s) :
    read (t :: ts) =
      if !nextIsMark s.rest "=" then (read s.rest).after s.notes
      else if !nextIsMark s.rest.tail "\x7b" then (read s.rest.tail).after s.notes
      else (readFrom s.value s.rest.tail).after s.notes := by
  rw [read]
  split
  · next h' => rw [h] at h'; cases h'
  · next s' h' =>
    rw [h] at h'
    cases h'
    split
    · rfl
    split
    · rfl
    · cases hblock : (Block.read s.value s.rest.tail).value with
      | error fault => simp [readFrom, Parsed.andThen, Parsed.after, hblock]
      | ok b => simp [readFrom, Parsed.andThen, Parsed.after, Parsed.map, hblock]

/-- A document is read to its end. -/
theorem rest_eq_nil (tokens : List Token) (blocks : List Block) (h : (read tokens).value = .ok blocks) :
    (read tokens).rest = [] := by
  fun_induction read tokens generalizing blocks with
  | case1 => rfl
  | case2 t ts _ ih => exact ih blocks h
  | case3 t ts s _ _ _ _ ih => exact ih blocks h
  | case4 t ts s _ _ _ _ _ ih => exact ih blocks h
  | case5 => cases h
  | case6 t ts s _ _ _ _ _ _ block b _ more ih =>
    cases hmore : more.value with
    | error fault => simp [hmore, Except.map] at h
    | ok bs => exact ih bs hmore

theorem read_suffix (tokens : List Token) : (read tokens).rest <:+ tokens := by
  fun_induction read tokens with
  | case1 => exact List.suffix_refl _
  | case2 t ts _ ih => exact ih.trans (List.suffix_cons ..)
  | case3 t ts s hs _ _ _ ih => exact ih.trans ((selector?_suffix hs).trans (List.suffix_cons ..))
  | case4 t ts s hs _ _ _ _ ih =>
    exact ih.trans ((List.tail_suffix _).trans ((selector?_suffix hs).trans (List.suffix_cons ..)))
  | case5 t ts s hs =>
    exact (Block.read_suffix ..).trans ((List.tail_suffix _).trans ((selector?_suffix hs).trans (List.suffix_cons ..)))
  | case6 t ts s hs _ _ _ _ _ block b _ more ih =>
    exact ih.trans ((Block.read_suffix ..).trans
      ((List.tail_suffix _).trans ((selector?_suffix hs).trans (List.suffix_cons ..))))

end NestedStyles.Document
