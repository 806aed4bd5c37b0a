import NetCore.Lib.Record
import NetCore.QueryString
import NetCore.RetryGuidance

/-!
# The `downstreamError` slot

An error leaves the plugin as JSON: `serialize` writes its fields under their camelCase
names and leaves out the three that may be absent.  No name hides another, and a field
that is absent is not there (`serialize_lookup`).  The numbers the model has as `Nat` are
64-bit numbers in every error a call reports, if a delay in it was read from a header
(`Reported.inRange`).
-/

namespace NetCore

/-- The fields as the derived `Serialize` has them, with `rename_all = "camelCase"` and
`skip_serializing_if = "Option::is_none"`. -/
def DownstreamHttpError.fields (e : DownstreamHttpError) : List (String × Option Value) :=
  [("kind", some (.string e.kind)), ("code", some (.string e.code)),
    ("message", some (.string e.message)), ("retryable", some (.bool e.retryable)),
    ("retryClass", some (.string e.retryClass)),
    ("retryAfterMs", e.retryAfterMs.map jsonNumber),
    ("idempotencyHint", some (.string e.idempotencyHint)),
    ("callerRetryDecision", some (.string e.callerRetryDecision)),
    ("retrySafety", some (.string e.retrySafety)),
    ("backoffStrategy", some (.string e.backoffStrategy)),
    ("minimumBackoffMs", e.minimumBackoffMs.map jsonNumber),
    ("suggestedAction", some (.string e.suggestedAction)),
    ("statusCode", e.statusCode.map fun statusCode => jsonNumber statusCode.toNat),
    ("details", some e.details)]

def DownstreamHttpError.serialize (e : DownstreamHttpError) : Value :=
  .object (Record.present e.fields)

variable {e : DownstreamHttpError}

theorem DownstreamHttpError.fields_nodup (e : DownstreamHttpError) :
    (e.fields.map Prod.fst).Nodup := by
  show ["kind", "code", "message", "retryable", "retryClass", "retryAfterMs", "idempotencyHint",
    "callerRetryDecision", "retrySafety", "backoffStrategy", "minimumBackoffMs",
    "suggestedAction", "statusCode", "details"].Nodup
  decide

/-- In the slot each field is found under its name, and nothing where it was left out. -/
theorem DownstreamHttpError.serialize_lookup (e : DownstreamHttpError) :
    ∃ slot, e.serialize = .object slot ∧ ∀ field ∈ e.fields, slot.lookup field.1 = field.2 := by
  refine ⟨_, rfl, ?_⟩
  intro field hfield
  exact Record.lookup_present e.fields_nodup hfield

/-! ## The errors of a call -/

/-- The numbers are `u64`, as the struct has them. -/
structure DownstreamHttpError.InRange (e : DownstreamHttpError) : Prop where
  retryAfter : ∀ ms, e.retryAfterMs = some ms → ms < 2 ^ 64
  backoff : ∀ ms, e.minimumBackoffMs = some ms → ms < 2 ^ 64

/-- A delay that is read has passed the checked multiplication. -/
theorem parseRetryAfterMs_lt {value : String} {ms : Nat} (h : parseRetryAfterMs value = some ms) :
    ms < 2 ^ 64 := by
  unfold parseRetryAfterMs at h
  split at h
  · next seconds _ =>
    by_cases hfits : seconds * 1000 < 2 ^ 64
    · rw [if_pos hfits, Option.some.injEq] at h
      omega
    · rw [if_neg hfits] at h
      cases h
  · cases h

/-- The delay of a draft stays, and the backoff is that delay or the default one. -/
theorem withRetryGuidance_delays (e : DownstreamHttpError) (context : RetrySafetyContext) :
    (withRetryGuidance e context).retryAfterMs = e.retryAfterMs ∧
      ∀ ms, (withRetryGuidance e context).minimumBackoffMs = some ms →
        ms = e.retryAfterMs.getD defaultBackoffBaseMs := by
  cases hretry : e.retryable with
  | false =>
    obtain ⟨hint, heq, -⟩ := withRetryGuidance_refused hretry context
    rw [heq]
    exact ⟨rfl, nofun⟩
  | true =>
    obtain ⟨hint, decision, safety, strategy, action, heq, -⟩ :=
      withRetryGuidance_retry hretry context
    rw [heq]
    exact ⟨rfl, fun ms hms => (Option.some.inj hms).symm⟩

theorem withRetryGuidance_inRange (h : ∀ ms, e.retryAfterMs = some ms → ms < 2 ^ 64)
    (context : RetrySafetyContext) : (withRetryGuidance e context).InRange := by
  obtain ⟨hdelay, hbackoff⟩ := withRetryGuidance_delays e context
  refine ⟨by rwa [hdelay], ?_⟩
  intro ms hms
  rw [hbackoff ms hms]
  cases hread : e.retryAfterMs with
  | none =>
    show 1000 < 2 ^ 64
    omega
  | some delay => exact h delay hread

variable {J : JsonApi} {method : HttpBackendMethod}

/-- **The numbers of a reported error**, if its delay was read from a header. -/
theorem Reported.inRange (h : Reported J method e)
    (hread : ∀ ms, e.retryAfterMs = some ms → ∃ value, parseRetryAfterMs value = some ms) :
    e.InRange := by
  have hlt : ∀ ms, e.retryAfterMs = some ms → ms < 2 ^ 64 := by
    intro ms hms
    obtain ⟨value, hvalue⟩ := hread ms hms
    exact parseRetryAfterMs_lt hvalue
  cases h with
  | status hstatus =>
    obtain ⟨draft, -, rfl, -, -⟩ := validateExpectedStatusCodes_some hstatus
    rw [(withRetryGuidance_delays draft _).1] at hlt
    exact withRetryGuidance_inRange hlt _
  | transport error =>
    apply withRetryGuidance_inRange
    intro ms hms
    cases hms
  | json hjson =>
    unfold parseAndValidateJsonResponse at hjson
    split at hjson
    · split at hjson
      · cases hjson
        exact ⟨nofun, nofun⟩
      · cases hjson
    · split at hjson
      · cases hjson
      · split at hjson
        · cases hjson
          exact ⟨nofun, nofun⟩
        · cases hjson

end NetCore
