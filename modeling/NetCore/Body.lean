import NetCore.Http
import NetCore.Lib.Unfold
import NetCore.Lib.Utf8

/-!
# Reading a response body under a cap

Twice in the source: `read_response_with_limit` is a loop over the chunks,
`read_body_streaming` a stream of one step per chunk by `unfold`.  Both keep the
first `limit` bytes and read the rest without keeping it (`readLoop_eq`,
`streamStep_drains`): what they return depends on the chunks received, on where
the cap falls between them (`overran`), and on the first error.
-/

namespace NetCore

open Unfold

variable {Url : Type}

/-- `String::from_utf8_lossy(&bytes).to_string()`. -/
def lossyString (bytes : Bytes) : String := String.ofList (Utf8.fromUtf8Lossy bytes)

/-! ## The buffered reader -/

/-- The `while let` loop of `read_response_with_limit`. -/
def readLoop (R : ReqwestApi Url) (limit : Nat) :
    BodyStream Url → Bytes → Bool → Except String (Bytes × Bool)
  | [], buf, truncated => .ok (buf, truncated)
  | .error e :: _, _, _ => .error s!"HTTP body read failed: {R.display e.withoutUrl}"
  | .ok chunk :: stream, buf, truncated =>
    if buf.length ≥ limit then readLoop R limit stream buf true
    else
      let remaining := limit - buf.length
      if chunk.length > remaining then readLoop R limit stream (buf ++ chunk.take remaining) true
      else readLoop R limit stream (buf ++ chunk) truncated

def readResponseWithLimit (R : ReqwestApi Url) (body : BodyStream Url) (limit : Nat) :
    Except String (Bytes × Bool) :=
  readLoop R limit body [] false

def readBodyWithLimit (R : ReqwestApi Url) (body : BodyStream Url) (limit : Nat) :
    Except String (String × Bool) := do
  let (bytes, truncated) ← readResponseWithLimit R body limit
  return (lossyString bytes, truncated)

/-! ## The streaming reader -/

inductive BodyReadStep
  | progress (cumulativeBytes : Nat)
  | done (body : String) (truncated : Bool)
deriving DecidableEq, Repr

/-- The `State` of `async_stream_body`. -/
inductive StreamState (Url : Type)
  | reading (inner : BodyStream Url) (buf : Bytes) (truncated : Bool) (limit : Nat)
      (doneEmitted : Bool)
  | finished

/-- The closure given to `unfold`. -/
def streamStep (R : ReqwestApi Url) :
    StreamState Url → Option (Except String BodyReadStep × StreamState Url)
  | .finished => none
  | .reading inner buf truncated limit doneEmitted =>
    if doneEmitted then none
    else
      match inner with
      | .ok chunk :: inner =>
        let (buf, truncated) :=
          if buf.length < limit then
            let remaining := limit - buf.length
            if chunk.length > remaining then (buf ++ chunk.take remaining, true)
            else (buf ++ chunk, truncated)
          else (buf, true)
        some (.ok (.progress buf.length), .reading inner buf truncated limit false)
      | .error e :: _ => some (.error s!"HTTP body read failed: {R.display e}", .finished)
      | [] =>
        some (.ok (.done (lossyString buf) truncated), .reading [] [] truncated limit true)

/-- `read_body_streaming`: where the stream starts. -/
def readBodyStreaming (body : BodyStream Url) (limit : Nat) : StreamState Url :=
  .reading body [] false limit false

/-- The terminal item of a drained stream. -/
def terminal : List (Except String BodyReadStep) → Option (Except String (String × Bool))
  | [] => none
  | .ok (.progress _) :: items => terminal items
  | .ok (.done body truncated) :: _ => some (.ok (body, truncated))
  | .error e :: _ => some (.error e)

/-! ## What both readers return -/

/-- The chunks up to the end of the body, or the first error. -/
def received {ε : Type} : List (Except ε Bytes) → Except ε (List Bytes)
  | [] => .ok []
  | .error e :: _ => .error e
  | .ok chunk :: stream => (received stream).map (chunk :: ·)

theorem received_chunks {ε : Type} (chunks : List Bytes) :
    received (chunks.map fun chunk => (.ok chunk : Except ε Bytes)) = .ok chunks := by
  induction chunks with
  | nil => rfl
  | cons chunk chunks ih =>
    rw [List.map_cons, received, ih]
    rfl

/-- A chunk passes the cap, or arrives when the cap has been reached. -/
def overran (limit : Nat) : Nat → List Bytes → Bool
  | _, [] => false
  | seen, chunk :: chunks =>
    decide (limit ≤ seen ∨ limit < seen + chunk.length) ||
      overran limit (seen + chunk.length) chunks

/-- The bytes kept and the truncation flag, after the bytes `seen`. -/
def capped (limit : Nat) (seen : Bytes) (truncated : Bool) (chunks : List Bytes) : Bytes × Bool :=
  ((seen ++ chunks.flatten).take limit, truncated || overran limit seen.length chunks)

theorem capped_nil (limit : Nat) (seen : Bytes) (truncated : Bool) :
    capped limit seen truncated [] = (seen.take limit, truncated) := by
  simp [capped, overran]

theorem capped_cons (limit : Nat) (seen chunk : Bytes) (truncated : Bool) (chunks : List Bytes) :
    capped limit seen truncated (chunk :: chunks) = capped limit (seen ++ chunk)
      (truncated || decide (limit ≤ seen.length ∨ limit < seen.length + chunk.length)) chunks := by
  simp [capped, overran, Bool.or_assoc]

/-- One chunk more, as both readers put it: the buffer and the flag after it. -/
theorem keep_chunk (limit : Nat) (seen chunk : Bytes) (truncated : Bool) :
    (if (seen.take limit).length < limit then
      if chunk.length > limit - (seen.take limit).length then
        (seen.take limit ++ chunk.take (limit - (seen.take limit).length), true)
      else (seen.take limit ++ chunk, truncated)
    else (seen.take limit, true)) =
      ((seen ++ chunk).take limit,
        truncated || decide (limit ≤ seen.length ∨ limit < seen.length + chunk.length)) := by
  by_cases hfull : limit ≤ seen.length
  · -- the buffer is full: the chunk is dropped
    have hlen : ¬ (seen.take limit).length < limit := by
      rw [List.length_take]
      omega
    rw [if_neg hlen, List.take_append_of_le_length hfull, decide_eq_true (Or.inl hfull),
      Bool.or_true]
  · have hseen : seen.take limit = seen := List.take_of_length_le (by omega)
    have htake : (seen ++ chunk).take limit = seen ++ chunk.take (limit - seen.length) := by
      rw [List.take_append, hseen]
    rw [hseen, htake, if_pos (by omega)]
    by_cases hover : limit < seen.length + chunk.length
    · rw [if_pos (by omega), decide_eq_true (Or.inr hover), Bool.or_true]
    · have hall : chunk.take (limit - seen.length) = chunk := List.take_of_length_le (by omega)
      rw [if_neg (by omega), hall, decide_eq_false (by omega), Bool.or_false]

/-- **The buffered reader** returns the capped chunks, or the first error without
its URL. -/
theorem readLoop_eq (R : ReqwestApi Url) (limit : Nat) (stream : BodyStream Url) (seen : Bytes)
    (truncated : Bool) :
    readLoop R limit stream (seen.take limit) truncated =
      match received stream with
      | .ok chunks => .ok (capped limit seen truncated chunks)
      | .error e => .error s!"HTTP body read failed: {R.display e.withoutUrl}" := by
  induction stream generalizing seen truncated with
  | nil => simp only [readLoop, received, capped_nil]
  | cons item stream ih =>
    cases item with
    | error e => simp only [readLoop, received]
    | ok chunk =>
      have hstep : readLoop R limit (.ok chunk :: stream) (seen.take limit) truncated =
          readLoop R limit stream ((seen ++ chunk).take limit)
            (truncated || decide (limit ≤ seen.length ∨ limit < seen.length + chunk.length)) := by
        have hkeep := keep_chunk limit seen chunk truncated
        rw [readLoop]
        by_cases hlen : (seen.take limit).length < limit
        · rw [if_neg (by omega)]
          rw [if_pos hlen] at hkeep
          show (if _ then _ else _) = _
          split
          · next hover =>
            rw [if_pos hover, Prod.mk.injEq] at hkeep
            rw [hkeep.1, ← hkeep.2]
          · next hroom =>
            rw [if_neg hroom, Prod.mk.injEq] at hkeep
            rw [hkeep.1, ← hkeep.2]
        · rw [if_neg hlen, Prod.mk.injEq] at hkeep
          rw [if_pos (by omega), hkeep.1, ← hkeep.2]
      rw [hstep, ih, received]
      cases received stream with
      | ok chunks => simp only [Except.map, capped_cons]
      | error e => rfl

/-- The counts a streaming reader reports, one for each chunk up to an error. -/
def progressCounts {ε : Type} (limit : Nat) : Nat → List (Except ε Bytes) → List Nat
  | _, [] => []
  | _, .error _ :: _ => []
  | seen, .ok chunk :: stream =>
    min limit (seen + chunk.length) :: progressCounts limit (seen + chunk.length) stream

/-- The item a streaming reader ends with. -/
def lastItem (R : ReqwestApi Url) (limit : Nat) (stream : BodyStream Url) (seen : Bytes)
    (truncated : Bool) : Except String BodyReadStep :=
  match received stream with
  | .ok chunks =>
    .ok (.done (lossyString (capped limit seen truncated chunks).1)
      (capped limit seen truncated chunks).2)
  | .error e => .error s!"HTTP body read failed: {R.display e}"

theorem lastItem_chunk (R : ReqwestApi Url) (limit : Nat) (stream : BodyStream Url)
    (seen chunk : Bytes) (truncated : Bool) :
    lastItem R limit (.ok chunk :: stream) seen truncated = lastItem R limit stream (seen ++ chunk)
      (truncated || decide (limit ≤ seen.length ∨ limit < seen.length + chunk.length)) := by
  unfold lastItem
  rw [received]
  cases received stream with
  | ok chunks => simp only [Except.map, capped_cons]
  | error e => rfl

/-- **The streaming reader** yields a progress item for each chunk, then one last
item, with the capped chunks or the first error as it is, and then ends. -/
theorem streamStep_drains (R : ReqwestApi Url) (limit : Nat) (stream : BodyStream Url)
    (seen : Bytes) (truncated : Bool) :
    Drains (streamStep R) (.reading stream (seen.take limit) truncated limit false)
      ((progressCounts limit seen.length stream).map (fun n => .ok (.progress n)) ++
        [lastItem R limit stream seen truncated]) := by
  induction stream generalizing seen truncated with
  | nil =>
    have hlast : lastItem R limit [] seen truncated =
        .ok (.done (lossyString (seen.take limit)) truncated) := by
      simp only [lastItem, received, capped_nil]
    rw [hlast]
    exact .item rfl (.stop rfl)
  | cons item stream ih =>
    cases item with
    | error e => exact .item rfl (.stop rfl)
    | ok chunk =>
      have hcount : min limit (seen.length + chunk.length) =
          ((seen ++ chunk).take limit).length := by
        rw [List.length_take, List.length_append]
      have hrest := ih (seen ++ chunk)
        (truncated || decide (limit ≤ seen.length ∨ limit < seen.length + chunk.length))
      rw [List.length_append] at hrest
      rw [lastItem_chunk, progressCounts, List.map_cons, List.cons_append, hcount]
      refine .item ?_ hrest
      rw [streamStep]
      simp only [Bool.false_eq_true, if_false, keep_chunk]

theorem terminal_progress (counts : List Nat) (items : List (Except String BodyReadStep)) :
    terminal (counts.map (fun n => .ok (.progress n)) ++ items) = terminal items := by
  induction counts with
  | nil => rfl
  | cons n counts ih => exact ih

end NetCore
