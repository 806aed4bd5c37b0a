import Mathlib.Data.List.Infix
import NetCore.Body

/-!
# The shape of the progress stream

`read_body_streaming` yields a progress item for each chunk, with the bytes kept
so far, then one terminal item, and then ends (`readBodyStreaming_shape`).  The
counts are a function of the chunks alone (`progressCounts_eq`).  That nothing
follows a terminal item is a fact about one step, from any state
(`streamStep_terminal`).  A poll reads one chunk and no more
(`readBodyStreaming_paced`).
-/

namespace NetCore

open Unfold

variable {Url : Type}

def progressItem (n : Nat) : Except String BodyReadStep := .ok (.progress n)

/-- `Done` or an error. -/
def IsTerminal : Except String BodyReadStep → Prop
  | .ok (.progress _) => False
  | .ok (.done _ _) => True
  | .error _ => True

/-- A body of the chunks, ended by a read error if there is one: what the transport
still holds then is not read. -/
def bodyOf (chunks : List Bytes) (failure : Option (ReqwestError Url)) (rest : BodyStream Url) :
    BodyStream Url :=
  chunks.map .ok ++ failure.elim [] fun e => .error e :: rest

/-- The bytes of the first `m` chunks. -/
def bytesOf (chunks : List Bytes) (m : Nat) : Nat := (chunks.take m).flatten.length

theorem bytesOf_cons (chunk : Bytes) (chunks : List Bytes) (m : Nat) :
    bytesOf (chunk :: chunks) (m + 1) = chunk.length + bytesOf chunks m := by
  unfold bytesOf
  rw [List.take_succ_cons, List.flatten_cons, List.length_append]

theorem bytesOf_mono (chunks : List Bytes) {m n : Nat} (h : m ≤ n) :
    bytesOf chunks m ≤ bytesOf chunks n :=
  (List.take_prefix_take_left h).flatten.length_le

/-! ## The counts -/

theorem progressCounts_end (limit seen : Nat) (failure : Option (ReqwestError Url))
    (rest : BodyStream Url) : progressCounts limit seen (bodyOf [] failure rest) = [] := by
  cases failure with
  | none => rfl
  | some e => rfl

/-- **One count for each chunk**: the bytes up to it, as far as the cap. -/
theorem progressCounts_eq (limit seen : Nat) (chunks : List Bytes)
    (failure : Option (ReqwestError Url)) (rest : BodyStream Url) :
    progressCounts limit seen (bodyOf chunks failure rest) =
      (List.range chunks.length).map fun i => min limit (seen + bytesOf chunks (i + 1)) := by
  induction chunks generalizing seen with
  | nil => exact progressCounts_end limit seen failure rest
  | cons chunk chunks ih =>
    have hbody : bodyOf (chunk :: chunks) failure rest = .ok chunk :: bodyOf chunks failure rest :=
      rfl
    rw [hbody, progressCounts, ih, List.length_cons, List.range_succ_eq_map, List.map_cons,
      List.map_map]
    congr 1
    · rw [bytesOf_cons, bytesOf, List.take_zero, List.flatten_nil, List.length_nil, Nat.add_zero]
    · apply List.map_congr_left
      intro i _
      show min limit (seen + chunk.length + bytesOf chunks (i + 1)) =
        min limit (seen + bytesOf (chunk :: chunks) (i + 1 + 1))
      rw [bytesOf_cons]
      omega

/-! ## The last item -/

theorem received_bodyOf (chunks : List Bytes) (failure : Option (ReqwestError Url))
    (rest : BodyStream Url) :
    received (bodyOf chunks failure rest) = failure.elim (.ok chunks) .error := by
  induction chunks with
  | nil =>
    cases failure with
    | none => rfl
    | some e => rfl
  | cons chunk chunks ih =>
    have hbody : bodyOf (chunk :: chunks) failure rest = .ok chunk :: bodyOf chunks failure rest :=
      rfl
    rw [hbody, received, ih]
    cases failure with
    | none => rfl
    | some e => rfl

/-- After a terminal item the stream ends, from whatever state the item came. -/
theorem streamStep_terminal {R : ReqwestApi Url} {s s' : StreamState Url}
    {item : Except String BodyReadStep} (h : streamStep R s = some (item, s'))
    (ht : IsTerminal item) : streamStep R s' = none := by
  cases s with
  | finished => cases h
  | reading inner buf truncated limit doneEmitted =>
    cases doneEmitted with
    | true => cases h
    | false =>
      rcases inner with _ | ⟨e | chunk, inner⟩
      · cases h
        rfl
      · cases h
        rfl
      · -- a chunk gives a progress item
        rw [streamStep] at h
        simp only [Bool.false_eq_true, if_false, Option.some.injEq, Prod.mk.injEq] at h
        rw [← h.1] at ht
        exact absurd ht id

/-! ## The shape -/

/-- The counts reported for the chunks. -/
structure ChunkCounts (limit : Nat) (chunks : List Bytes) (counts : List Nat) : Prop where
  length : counts.length = chunks.length
  count : ∀ i (hi : i < counts.length), counts[i] = min limit (bytesOf chunks (i + 1))
  mono : counts.Pairwise (· ≤ ·)
  le_limit : ∀ n ∈ counts, n ≤ limit

/-- `Done` after a normal end, its body the lossy text of the first bytes, as many as were
last counted, or the read error. -/
def EndsWith (R : ReqwestApi Url) (chunks : List Bytes) (failure : Option (ReqwestError Url))
    (counts : List Nat) (last : Except String BodyReadStep) : Prop :=
  match failure with
  | none => ∃ bytes truncated, last = .ok (.done (lossyString bytes) truncated) ∧
      bytes <+: chunks.flatten ∧ bytes.length = counts.getLast?.getD 0
  | some e => last = .error s!"HTTP body read failed: {R.display e}"

theorem chunkCounts_range (limit : Nat) (chunks : List Bytes) :
    ChunkCounts limit chunks
      ((List.range chunks.length).map fun i => min limit (bytesOf chunks (i + 1))) where
  length := by rw [List.length_map, List.length_range]
  count i hi := by rw [List.getElem_map, List.getElem_range]
  mono := by
    rw [List.pairwise_map]
    refine List.pairwise_lt_range.imp ?_
    intro i j hij
    have hbytes := bytesOf_mono chunks (Nat.succ_le_succ (Nat.le_of_lt hij))
    exact Nat.le_min.2 ⟨Nat.min_le_left _ _, (Nat.min_le_right _ _).trans hbytes⟩
  le_limit := by
    intro n hn
    obtain ⟨i, -, rfl⟩ := List.mem_map.1 hn
    exact Nat.min_le_left _ _

theorem ChunkCounts.getLast {limit : Nat} {chunks : List Bytes} {counts : List Nat}
    (h : ChunkCounts limit chunks counts) :
    counts.getLast?.getD 0 = (chunks.flatten.take limit).length := by
  rw [List.length_take]
  rcases Nat.eq_zero_or_pos counts.length with hzero | hpos
  · have hchunks : chunks = [] := List.length_eq_zero_iff.1 (h.length ▸ hzero)
    rw [List.length_eq_zero_iff.1 hzero, hchunks]
    simp
  · have hlast := h.count (counts.length - 1) (by omega)
    have hall : bytesOf chunks (counts.length - 1 + 1) = chunks.flatten.length := by
      unfold bytesOf
      rw [List.take_of_length_le (by rw [← h.length]; omega)]
    rw [List.getLast?_eq_getElem?, List.getElem?_eq_getElem (by omega), Option.getD_some, hlast,
      hall]

/-- **The shape of the stream**: what it yields is the counts, then the last item; no
item follows a terminal one. -/
theorem readBodyStreaming_shape (R : ReqwestApi Url) (limit : Nat) (chunks : List Bytes)
    (failure : Option (ReqwestError Url)) (rest : BodyStream Url) :
    ∃ counts last,
      (∀ items, Drains (streamStep R) (readBodyStreaming (bodyOf chunks failure rest) limit) items ↔
        items = counts.map progressItem ++ [last]) ∧
      ChunkCounts limit chunks counts ∧ IsTerminal last ∧
      EndsWith R chunks failure counts last ∧
      ∀ before item after, counts.map progressItem ++ [last] = before ++ item :: after →
        IsTerminal item → after = [] := by
  have hdrains := streamStep_drains R limit (bodyOf chunks failure rest) [] false
  rw [List.take_nil, List.length_nil, progressCounts_eq] at hdrains
  simp only [Nat.zero_add] at hdrains
  have hcounted := chunkCounts_range limit chunks
  refine ⟨_, lastItem R limit (bodyOf chunks failure rest) [] false,
    fun items => ⟨fun h => h.unique hdrains, fun h => h ▸ hdrains⟩, hcounted, ?_, ?_, ?_⟩
  · unfold lastItem
    rw [received_bodyOf]
    cases failure with
    | none => exact trivial
    | some e => exact trivial
  · unfold lastItem
    rw [received_bodyOf]
    cases failure with
    | none => exact ⟨_, _, rfl, List.take_prefix _ _, hcounted.getLast.symm⟩
    | some e => exact rfl
  · intro before item after hsplit hterminal
    have hdrains' : Drains (streamStep R) _ (before ++ item :: after) := hsplit ▸ hdrains
    exact hdrains'.nothing_after fun s s' hs => streamStep_terminal hs hterminal

/-! ## The pace -/

/-- One poll for each chunk: what is yielded, what is kept, and the rest unread. -/
theorem polls_chunks (R : ReqwestApi Url) (limit : Nat) (chunks : List Bytes)
    (rest : BodyStream Url) (seen : Bytes) (truncated : Bool) :
    polls (streamStep R) chunks.length
        (.reading (chunks.map .ok ++ rest) (seen.take limit) truncated limit false) =
      ((progressCounts limit seen.length (bodyOf chunks none [] : BodyStream Url)).map progressItem,
        .reading rest (capped limit seen truncated chunks).1 (capped limit seen truncated chunks).2
          limit false) := by
  induction chunks generalizing seen truncated with
  | nil =>
    rw [capped_nil]
    rfl
  | cons chunk chunks ih =>
    have hstep : streamStep R
        (.reading (.ok chunk :: (chunks.map .ok ++ rest)) (seen.take limit) truncated limit false) =
          some (progressItem ((seen ++ chunk).take limit).length,
            .reading (chunks.map .ok ++ rest) ((seen ++ chunk).take limit)
              (truncated || decide (limit ≤ seen.length ∨ limit < seen.length + chunk.length))
              limit false) := by
      rw [streamStep]
      simp only [Bool.false_eq_true, if_false, keep_chunk]
      rfl
    have hcount : ((seen ++ chunk).take limit).length =
        min limit (seen.length + chunk.length) := by
      rw [List.length_take, List.length_append]
    have hbody : (bodyOf (chunk :: chunks) none [] : BodyStream Url) =
        .ok chunk :: bodyOf chunks none [] := rfl
    rw [List.length_cons, List.map_cons, List.cons_append, polls_item hstep, ih, capped_cons, hbody,
      progressCounts, List.map_cons, hcount, List.length_append]

/-- **The pace.**  After a poll for each of some chunks the stream has yielded their
counts, keeps the bytes under the cap, and has read nothing of what follows them, be it
more chunks, an error or the end. -/
theorem readBodyStreaming_paced (R : ReqwestApi Url) (limit : Nat) (chunks : List Bytes)
    (rest : BodyStream Url) :
    polls (streamStep R) chunks.length (readBodyStreaming (chunks.map .ok ++ rest) limit) =
      ((List.range chunks.length).map fun i => progressItem (min limit (bytesOf chunks (i + 1))),
        .reading rest (chunks.flatten.take limit) (overran limit 0 chunks) limit false) := by
  have hpolls := polls_chunks R limit chunks rest [] false
  rw [List.take_nil, List.length_nil, progressCounts_eq, List.map_map] at hpolls
  simp only [Nat.zero_add] at hpolls
  exact hpolls

end NetCore
