import NestedStyles.Stream
import NestedStyles.Proofs.Overflow
import NestedStyles.Proofs.Preliminaries

/-!
# Sessions on a stream

A stream can be asked anything in any order, from any place, and go on after a fault. It never loses a token or a
diagnostic and never goes back. A request that only looks or reports does not move it, and there are two ways to end in
a fault: looking too far back, and a color channel that is too large.

- `Stream.Later`: a state that another one can lead to.
- `Stream.Cause`: what a fault of a request comes from.
- `Stream.perform_later`, `Stream.perform_still`, `Stream.perform_cause`: one request.
- `Stream.after_later`: the requests of a session.
- `Stream.session_disciplined`: all of it, for the sessions on a source.
-/

namespace NestedStyles.Stream

namespace Request

/-- The distance at which a request looks, if it looks at a place of its choice. -/
def offset? : Request → Option Int
  | .peek offset => some offset
  | .isMark _ offset => some offset
  | .isIdentifier _ offset => some offset
  | _ => none

/-- Requests that look around or report. -/
def isStill : Request → Bool
  | .peek _ => true
  | .isAtEnd => true
  | .isMark _ _ => true
  | .isIdentifier _ _ => true
  | .report _ _ _ => true
  | _ => false

/-- Requests that read a part of the grammar. -/
def isReading : Request → Bool
  | .value => true
  | .color => true
  | .document => true
  | .block _ => true
  | .functionBlock => true
  | _ => false

end Request

/-- A state behind another one: it has the same tokens, its position is not before the other's and not behind the
last token, and what it has recorded begins with what the other has. -/
structure Later (s s' : Stream) : Prop where
  tokens : s'.tokens = s.tokens
  forward : s.position ≤ s'.position
  inside : s'.position ≤ s'.tokens.length
  notes : s.notes <+: s'.notes

/-- Where a fault comes from: an offset that leads before the first token even when counted from the end, or a channel
in what was to be read. -/
inductive Cause (s : Stream) (r : Request) : Fault → Prop
  | offset {offset : Int} (hoffset : r.offset? = some offset) (hfar : s.position + offset < -s.tokens.length) :
      Cause s r .beforeFirstToken
  | channel (hreading : r.isReading = true) (haccounted : Fault.Accounted s.rest .channelOverflow) :
      Cause s r .channelOverflow

variable {s s' s'' : Stream}

theorem Later.refl (hs : s.position ≤ s.tokens.length) : s.Later s :=
  ⟨rfl, Nat.le_refl _, hs, List.prefix_refl _⟩

theorem Later.trans (h : s.Later s') (h' : s'.Later s'') : s.Later s'' :=
  ⟨h'.tokens.trans h.tokens, Nat.le_trans h.forward h'.forward, h'.inside, h.notes.trans h'.notes⟩

/-! ## One request -/

/-- Reading leaves a suffix of the tokens that are left, so the position moves forward. -/
theorem advance_later (hs : s.position ≤ s.tokens.length) {α : Type} {p : Parsed α} (hp : p.rest <:+ s.rest) :
    s.Later (s.advance p) := by
  have hlength := hp.length_le
  rw [rest, List.length_drop] at hlength
  refine ⟨rfl, ?_, ?_, List.prefix_append ..⟩
  · show s.position ≤ s.tokens.length - p.rest.length
    omega
  · show s.tokens.length - p.rest.length ≤ s.tokens.length
    omega

theorem record_later (hs : s.position ≤ s.tokens.length) (d : Diagnostic) : s.Later (s.record d) :=
  ⟨rfl, Nat.le_refl _, hs, List.prefix_append ..⟩

theorem perform_later (hs : s.position ≤ s.tokens.length) (r : Request) : s.Later (s.perform r).2 := by
  cases r with
  | peek | isAtEnd | isMark | isIdentifier => exact .refl hs
  | next => exact advance_later hs (List.tail_suffix _)
  | expect wanted => exact advance_later hs (expect_suffix ..)
  | skipComma => exact advance_later hs (skipComma_suffix _)
  | report => exact record_later hs _
  | value => exact advance_later hs (Value.read_suffix _)
  | color => exact advance_later hs ((Color.call_suffix _).trans (List.tail_suffix _))
  | document => exact advance_later hs (Document.read_suffix _)
  | block selector => exact advance_later hs (Block.read_suffix ..)
  | functionBlock => exact advance_later hs (Declaration.readFunction_suffix _)

theorem perform_still {r : Request} (hr : r.isStill = true) (s : Stream) :
    (s.perform r).2.position = s.position := by
  cases r with
  | peek | isAtEnd | isMark | isIdentifier | report => rfl
  | next | expect | skipComma | value | color | document | block | functionBlock => cases hr

theorem peek_eq_error {offset : Int} {fault : Fault} (h : s.peek offset = .error fault) :
    fault = .beforeFirstToken ∧ s.position + offset < -s.tokens.length := by
  unfold peek at h
  dsimp only at h
  split at h
  · cases h
  split at h
  · cases h
  · cases h
    exact ⟨rfl, by omega⟩

theorem cause_of_peek {r : Request} {offset : Int} (hoffset : r.offset? = some offset) {fault : Fault}
    (h : s.peek offset = .error fault) : s.Cause r fault := by
  obtain ⟨rfl, hfar⟩ := peek_eq_error h
  exact .offset hoffset hfar

theorem cause_of_reading {r : Request} (hreading : r.isReading = true) {fault : Fault}
    (h : fault.Accounted s.rest) : s.Cause r fault := by
  obtain rfl := h.eq
  exact .channel hreading h

/-- **A fault of a request has one of two causes.** -/
theorem perform_cause {r : Request} {fault : Fault} (h : (s.perform r).1 = .error fault) : s.Cause r fault := by
  cases r with
  | peek offset => exact cause_of_peek rfl (map_eq_error_iff.1 h)
  | isMark mark offset => exact cause_of_peek rfl (map_eq_error_iff.1 h)
  | isIdentifier name offset => exact cause_of_peek rfl (map_eq_error_iff.1 h)
  | next | isAtEnd | expect | skipComma | report => cases h
  | value => exact cause_of_reading rfl (Value.read_accounted _ _ (map_eq_error_iff.1 h))
  | color => exact cause_of_reading rfl (Color.call_accounted _ _ (map_eq_error_iff.1 h))
  | document => exact cause_of_reading rfl (Document.read_accounted _ _ (map_eq_error_iff.1 h))
  | block selector => exact cause_of_reading rfl (Block.read_accounted _ _ _ (map_eq_error_iff.1 h))
  | functionBlock => exact cause_of_reading rfl (Declaration.readFunction_accounted _ _ (map_eq_error_iff.1 h))

/-! ## Sessions -/

/-- The stream after a sequence of requests. -/
def after (s : Stream) (requests : List Request) : Stream := requests.foldl (fun s r => (s.perform r).2) s

/-- A session leads to later states only. -/
theorem after_later (hs : s.position ≤ s.tokens.length) (requests : List Request) : s.Later (s.after requests) := by
  induction requests generalizing s with
  | nil => exact .refl hs
  | cons r rs ih =>
    have hstep := perform_later hs r
    exact hstep.trans (ih hstep.inside)

theorem after_append (s : Stream) (earlier later : List Request) :
    s.after (earlier ++ later) = (s.after earlier).after later := List.foldl_append

/-- Each reply of a session is given by the state in which its request is made. -/
theorem getElem?_performAll (s : Stream) (requests : List Request) (i : Nat) :
    (s.performAll requests)[i]? = requests[i]?.map (s.after (requests.take i)).perform := by
  induction requests generalizing s i with
  | nil => rfl
  | cons r rs ih =>
    cases i with
    | zero => rfl
    | succ i => exact ih (s.perform r).2 i

/-- The state of a session on a source before its request number `i`. -/
def stateAt (source : String) (requests : List Request) (i : Nat) : Stream :=
  (ofSource source).after (requests.take i)

theorem stateAt_later (source : String) (requests : List Request) {i j : Nat} (hij : i ≤ j) :
    (stateAt source requests i).Later (stateAt source requests j) := by
  have hstart : (ofSource source).position ≤ (ofSource source).tokens.length := Nat.zero_le _
  have hsplit := List.take_append_drop i (requests.take j)
  rw [List.take_take, Nat.min_eq_left hij] at hsplit
  rw [stateAt, stateAt, ← hsplit, after_append]
  exact after_later (after_later hstart _).inside _

/-- **Stream discipline.** Along every session on a source, from any state to any later one, the tokens are those of
the source, the position stays inside of them and never decreases, and diagnostics are only added behind those there
are. Each request is answered in the state before it and leads to the state behind it; a request that looks or reports
leaves the position as it is, and a fault has one of two causes. -/
theorem session_disciplined (source : String) (requests : List Request) :
    (stateAt source requests 0).tokens = Token.significant source ∧
      (∀ i j, i ≤ j → (stateAt source requests i).Later (stateAt source requests j)) ∧
      ∀ i request, requests[i]? = some request →
        ∃ reply, ((ofSource source).performAll requests)[i]? = some (reply, stateAt source requests (i + 1)) ∧
          (request.isStill = true →
            (stateAt source requests (i + 1)).position = (stateAt source requests i).position) ∧
          ∀ fault, reply = .error fault → (stateAt source requests i).Cause request fault := by
  refine ⟨rfl, fun i j => stateAt_later source requests, fun i request hrequest => ?_⟩
  have hnext : stateAt source requests (i + 1) = ((stateAt source requests i).perform request).2 := by
    rw [stateAt, List.take_add_one, hrequest, after_append]
    rfl
  refine ⟨((stateAt source requests i).perform request).1, ?_, fun hstill => ?_, fun fault => perform_cause⟩
  · rw [getElem?_performAll, hrequest, hnext]
    rfl
  · rw [hnext]
    exact perform_still hstill _

namespace Sample

def source : String := "; p = \x7b ink = color.color3(\"1e308\")"

/-- Requests of which the second and the third end in a fault. -/
def requests : List Request := [.next, .peek (-20), .document, .expect "\x7d"]

end Sample

theorem session_disciplined_sample :
    (stateAt Sample.source Sample.requests 1).Later (stateAt Sample.source Sample.requests 3) ∧
      Sample.requests[1]? = some (.peek (-20)) ∧
      (stateAt Sample.source Sample.requests 2).position = 1 ∧
      (stateAt Sample.source Sample.requests 1).Cause (.peek (-20)) .beforeFirstToken ∧
      Sample.requests[2]? = some .document ∧
      (stateAt Sample.source Sample.requests 2).Cause .document .channelOverflow := by
  obtain ⟨-, hlater, hrequest⟩ := session_disciplined Sample.source Sample.requests
  obtain ⟨far, hfar, hstill, hoffset⟩ := hrequest 1 (.peek (-20)) rfl
  obtain ⟨large, hlarge, -, hchannel⟩ := hrequest 2 .document rfl
  refine ⟨hlater 1 3 (by decide), rfl, (hstill rfl).trans (by decide +kernel), hoffset _ ?_, rfl, hchannel _ ?_⟩
  · have hreply : (((ofSource Sample.source).performAll Sample.requests)[1]?).map Prod.fst =
        some (.error .beforeFirstToken) := by decide +kernel
    rw [hfar] at hreply
    exact Option.some.inj hreply
  · have hreply : (((ofSource Sample.source).performAll Sample.requests)[2]?).map Prod.fst =
        some (.error .channelOverflow) := by decide +kernel
    rw [hlarge] at hreply
    exact Option.some.inj hreply

end NestedStyles.Stream
