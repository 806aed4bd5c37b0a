import NetCore.Body

/-!
# When the capped read is exact

`read_response_with_limit` keeps the first `limit` bytes of the body, however it
is cut into chunks.  Its flag is another matter: a chunk that arrives when the
buffer is full sets it, whether or not that chunk holds a byte.  So the flag
says that bytes were cut off, except for a body of exactly `limit` bytes that is
followed by an empty chunk (`readResponseWithLimit_exact_iff`).
-/

namespace NetCore

variable {Url : Type}

/-- The read under a cap, as a function of the whole body. -/
def exactRead (limit : Nat) (whole : Bytes) : Bytes × Bool :=
  (whole.take limit, decide (limit < whole.length))

/-- The body fills the cap, and its last chunk is empty. -/
def EndsAtCap (limit : Nat) (chunks : List Bytes) : Prop :=
  chunks.flatten.length = limit ∧ chunks.getLast? = some []

/-- The last chunk sets the flag if it meets a full buffer or passes the cap, and an
earlier chunk that does leaves the buffer full. -/
theorem overran_concat (limit seen : Nat) (chunks : List Bytes) (last : Bytes) :
    overran limit seen (chunks ++ [last]) = true ↔
      limit ≤ seen + chunks.flatten.length ∨
        limit < seen + chunks.flatten.length + last.length := by
  induction chunks generalizing seen with
  | nil => simp [overran]
  | cons chunk chunks ih =>
    rw [List.cons_append, overran, Bool.or_eq_true, decide_eq_true_eq, ih, List.flatten_cons,
      List.length_append]
    omega

/-- The flag is set by a byte beyond the cap, or by an empty chunk at it. -/
theorem overran_iff (limit seen : Nat) (chunks : List Bytes) (hseen : seen ≤ limit) :
    overran limit seen chunks = true ↔
      limit < seen + chunks.flatten.length ∨
        (seen + chunks.flatten.length = limit ∧ chunks.getLast? = some []) := by
  rcases List.eq_nil_or_concat chunks with rfl | ⟨init, last, rfl⟩
  · simp [overran, hseen]
  · rw [List.concat_eq_append, overran_concat, List.flatten_append, List.length_append,
      List.flatten_singleton, List.getLast?_concat, Option.some.injEq, ← List.length_eq_zero_iff]
    omega

/-- **When the capped read is exact.**  It is the read of the whole body under the
cap unless the body fills the cap and ends in an empty chunk. -/
theorem readResponseWithLimit_exact_iff (R : ReqwestApi Url) (limit : Nat) (chunks : List Bytes) :
    readResponseWithLimit R (chunks.map .ok) limit = .ok (exactRead limit chunks.flatten) ↔
      ¬ EndsAtCap limit chunks := by
  have hread := readLoop_eq R limit (chunks.map .ok) [] false
  rw [List.take_nil, received_chunks] at hread
  have hflag := overran_iff limit 0 chunks (Nat.zero_le limit)
  rw [Nat.zero_add] at hflag
  unfold readResponseWithLimit
  rw [hread]
  simp only [capped, exactRead, List.nil_append, Bool.false_or, List.length_nil, Except.ok.injEq,
    Prod.mk.injEq, true_and]
  constructor
  · intro hexact hends
    rw [hflag.2 (Or.inr hends), eq_comm, decide_eq_true_eq] at hexact
    exact absurd hends.1 (by omega)
  · intro hends
    rw [Bool.eq_iff_iff, decide_eq_true_eq, hflag]
    constructor
    · rintro (h | h)
      · exact h
      · exact absurd h hends
    · exact Or.inl

/-- Two bytes under a cap of two, then an empty chunk. -/
theorem readResponseWithLimit_empty_chunk :
    readResponseWithLimit plainReqwestApi ([[104, 105], []].map .ok) 2 ≠
      .ok (exactRead 2 [[104, 105], []].flatten) := by
  decide

end NetCore
