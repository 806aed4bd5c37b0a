import NetCore.RetryGuidance

/-!
# The delay an upstream asks for

A `Retry-After` of `n` seconds passes a 64-bit parse and a checked multiplication
before it becomes the `minimum_backoff_ms` of an error (`parseRetryAfterMs_digits`).
A number that either step drops is then no delay at all, and the default backoff of
one second stands in its place.  So the guidance undercuts no delay that fits
(`guidance_respects_iff`), and every one that does not.
-/

namespace NetCore

open Text

/-- The header value is `n` in decimal, between white space. -/
def DenotesSeconds (value : String) (n : Nat) : Prop :=
  ∃ pre digits post, value.toList = pre ++ (digits ++ post) ∧
    (∀ c ∈ pre, isWhitespace c = true) ∧ (∀ c ∈ post, isWhitespace c = true) ∧
    digits ≠ [] ∧ (∀ c ∈ digits, c.isDigit = true) ∧ Nat.ofDigitChars 10 digits 0 = n

/-- The backoff the error of an unexpected status asks for, as a function of the header. -/
def guidance (expectedStatusCodes : List UInt16) (actualStatusCode : UInt16)
    (retrySafetyContext : RetrySafetyContext) (value : String) : Option Nat :=
  (validateExpectedStatusCodes expectedStatusCodes actualStatusCode (parseRetryAfterMs value)
    retrySafetyContext).bind DownstreamHttpError.minimumBackoffMs

/-- At `n` seconds the guidance is no shorter than the delay, and no header that asks for
less gets more. -/
structure Respects (guide : String → Option Nat) (value : String) (n : Nat) : Prop where
  enough : ∃ backoff, guide value = some backoff ∧ min (1000 * n) (2 ^ 64 - 1) ≤ backoff
  mono : ∀ value' m, DenotesSeconds value' m → m ≤ n → ∀ backoff backoff',
    guide value = some backoff → guide value' = some backoff' → backoff' ≤ backoff

/-! ## From the header to milliseconds -/

theorem parseU64_digits {digits : List Char} (hne : digits ≠ [])
    (hdigits : ∀ c ∈ digits, c.isDigit = true) :
    parseU64 digits = if Nat.ofDigitChars 10 digits 0 < 2 ^ 64 then
      some (Nat.ofDigitChars 10 digits 0) else none := by
  have hplus : ∀ rest, digits ≠ '+' :: rest := by
    rintro rest rfl
    exact absurd (hdigits '+' List.mem_cons_self) (by decide)
  have hvalue : digits.foldl (fun n c => n * 10 + (c.toNat - '0'.toNat)) 0 =
      Nat.ofDigitChars 10 digits 0 := by
    simp only [Nat.ofDigitChars_eq_foldl, Nat.mul_comm]
  have hall : digits.all Char.isDigit = true := List.all_eq_true.2 hdigits
  unfold parseU64
  split
  · next rest => exact absurd rfl (hplus rest)
  · simp only [hvalue, hall, hne, ne_eq, not_false_eq_true, true_and]

/-- A number of seconds is read unless it does not fit as milliseconds. -/
theorem parseRetryAfterMs_digits {value : String} {n : Nat} (h : DenotesSeconds value n) :
    parseRetryAfterMs value = if 1000 * n < 2 ^ 64 then some (1000 * n) else none := by
  obtain ⟨pre, digits, post, hvalue, hpre, hpost, hne, hdigits, rfl⟩ := h
  have htoken : ∀ c ∈ digits, isWhitespace c = false := by
    intro c hc
    apply isWhitespace_of_alphanum
    rw [Char.isAlphanum, hdigits c hc, Bool.or_true]
  unfold parseRetryAfterMs
  rw [hvalue, trim_padded hpre htoken hpost, parseU64_digits hne hdigits]
  by_cases hfits : 1000 * Nat.ofDigitChars 10 digits 0 < 2 ^ 64
  · have hparse : Nat.ofDigitChars 10 digits 0 < 2 ^ 64 := by omega
    rw [if_pos hfits, if_pos hparse]
    simp only [Nat.mul_comm _ 1000, if_pos hfits]
  · rw [if_neg hfits]
    by_cases hparse : Nat.ofDigitChars 10 digits 0 < 2 ^ 64
    · rw [if_pos hparse]
      simp only [Nat.mul_comm _ 1000, if_neg hfits]
    · rw [if_neg hparse]

/-! ## From milliseconds to the guidance -/

variable {expectedStatusCodes : List UInt16} {actualStatusCode : UInt16}

/-- The guidance of a retryable status is the delay read, or the default. -/
theorem guidance_eq (hout : actualStatusCode ∉ expectedStatusCodes)
    (hretry : actualStatusCode = 429 ∨ actualStatusCode ≥ 500) (context : RetrySafetyContext)
    (value : String) :
    guidance expectedStatusCodes actualStatusCode context value =
      some ((parseRetryAfterMs value).getD defaultBackoffBaseMs) := by
  have hretryable : (actualStatusCode == 429 || decide (actualStatusCode ≥ 500)) = true := by
    rw [Bool.or_eq_true, beq_iff_eq, decide_eq_true_eq]
    exact hretry
  unfold guidance
  cases he : validateExpectedStatusCodes expectedStatusCodes actualStatusCode
      (parseRetryAfterMs value) context with
  | none =>
    unfold validateExpectedStatusCodes at he
    rw [if_neg (by rwa [List.contains_iff_mem])] at he
    cases he
  | some e =>
    obtain ⟨draft, -, rfl, hyes, hms⟩ := validateExpectedStatusCodes_some he
    rw [hretryable] at hyes
    obtain ⟨hint, decision, safety, strategy, action, heq, -⟩ := withRetryGuidance_retry hyes context
    rw [heq, ← hms]
    rfl

/-- **The guidance respects the delay** exactly if the delay is a 64-bit number of
milliseconds. -/
theorem guidance_respects_iff (hout : actualStatusCode ∉ expectedStatusCodes)
    (hretry : actualStatusCode = 429 ∨ actualStatusCode ≥ 500) (context : RetrySafetyContext)
    {value : String} {n : Nat} (hn : DenotesSeconds value n) :
    Respects (guidance expectedStatusCodes actualStatusCode context) value n ↔
      1000 * n < 2 ^ 64 := by
  have hguide : ∀ {value n}, DenotesSeconds value n →
      guidance expectedStatusCodes actualStatusCode context value =
        some (if 1000 * n < 2 ^ 64 then 1000 * n else 1000) := by
    intro value n hn
    rw [guidance_eq hout hretry, parseRetryAfterMs_digits hn]
    split
    · rfl
    · rfl
  constructor
  · rintro ⟨⟨backoff, hbackoff, hle⟩, -⟩
    rw [hguide hn, Option.some.injEq] at hbackoff
    by_cases hfits : 1000 * n < 2 ^ 64
    · exact hfits
    · -- one second for a delay of more than 2 ^ 64 milliseconds
      rw [if_neg hfits] at hbackoff
      omega
  · intro hfits
    refine ⟨⟨1000 * n, by rw [hguide hn, if_pos hfits], Nat.min_le_left _ _⟩, ?_⟩
    intro value' m hm hle backoff backoff' h h'
    have hfits' : 1000 * m < 2 ^ 64 := by omega
    rw [hguide hn, if_pos hfits, Option.some.injEq] at h
    rw [hguide hm, if_pos hfits', Option.some.injEq] at h'
    omega

/-- A header of two minutes with a leading zero, between spaces. -/
theorem guidance_respects_padded :
    Respects (guidance [200] 503 .readOnlyProbe) " 0120 " 120 := by
  have hn : DenotesSeconds " 0120 " 120 :=
    ⟨[' '], ['0', '1', '2', '0'], [' '], by decide, List.all_eq_true.1 (by decide),
      List.all_eq_true.1 (by decide), by decide, List.all_eq_true.1 (by decide), by decide⟩
  exact (guidance_respects_iff (by decide) (Or.inr (by decide)) .readOnlyProbe hn).2 (by decide)

/-- The first number of seconds that is no 64-bit number of milliseconds: one second. -/
theorem guidance_undercuts :
    DenotesSeconds "18446744073709552" 18446744073709552 ∧
      guidance [200] 429 .readOnlyProbe "18446744073709552" = some 1000 ∧
      ¬ Respects (guidance [200] 429 .readOnlyProbe) "18446744073709552" 18446744073709552 := by
  have hguide : guidance [200] 429 .readOnlyProbe "18446744073709552" = some 1000 := by decide
  refine ⟨⟨[], "18446744073709552".toList, [], by decide, nofun, nofun, by decide,
    List.all_eq_true.1 (by decide), by decide⟩, hguide, ?_⟩
  rintro ⟨⟨backoff, hbackoff, hle⟩, -⟩
  rw [hguide, Option.some.injEq] at hbackoff
  omega

end NetCore
