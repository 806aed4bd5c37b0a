import NetCore.Exec

/-!
# Errors of a call, and what to do about them

`validateExpectedStatusCodes` looks at the status of a summary and
`parseAndValidateJsonResponse` at its content type and body text; a call that fails
before there is a summary gives `transportDownstreamError`.  The first and the last
fill in a draft that `withRetryGuidance` completes, the JSON errors are written out
as they are.  `serde_json::from_str` is a field of `JsonApi`.
-/

namespace NetCore

open Text

structure JsonApi where
  /-- an error is its `Display` text -/
  fromStr : String → Except String Value

structure DownstreamHttpError where
  kind : String
  code : String
  message : String
  retryable : Bool
  retryClass : String
  retryAfterMs : Option Nat
  idempotencyHint : String
  callerRetryDecision : String
  retrySafety : String
  backoffStrategy : String
  minimumBackoffMs : Option Nat
  suggestedAction : String
  statusCode : Option UInt16
  details : Value

def defaultBackoffBaseMs : Nat := 1000

/-- The fields of the draft that say how to retry, from its `retryable` and
`retryAfterMs`. -/
def withRetryGuidance (error : DownstreamHttpError) (retrySafetyContext : RetrySafetyContext) :
    DownstreamHttpError :=
  let idempotencyHint := match retrySafetyContext with
    | .readOnlyProbe => "idempotent_read_only"
    | .potentiallyNonIdempotentJsonCall => "potentially_non_idempotent"
  if ¬ error.retryable then
    { error with
      idempotencyHint := idempotencyHint
      callerRetryDecision := "do_not_retry"
      retrySafety := "do_not_retry"
      backoffStrategy := "no_retry"
      minimumBackoffMs := none }
  else
    let (retrySafety, suggestedAction, callerRetryDecision) := match retrySafetyContext with
      | .readOnlyProbe =>
        let decision :=
          if error.retryAfterMs.isSome then "automatic_retry_after_delay"
          else "automatic_retry_with_backoff"
        ("safe_for_automatic_retry", error.suggestedAction, decision)
      | .potentiallyNonIdempotentJsonCall =>
        let (action, decision) :=
          if error.retryAfterMs.isSome then
            ("review_idempotency_then_retry_after_delay",
              "confirm_idempotency_then_retry_after_delay")
          else
            ("review_idempotency_then_retry_with_backoff",
              "confirm_idempotency_then_retry_with_backoff")
        ("review_idempotency_before_retry", action, decision)
    let (backoffStrategy, minimumBackoffMs) := match error.retryAfterMs with
      | some retryAfterMs => ("respect_retry_after", some retryAfterMs)
      | none => ("exponential_backoff", some defaultBackoffBaseMs)
    { error with
      idempotencyHint := idempotencyHint
      callerRetryDecision := callerRetryDecision
      retrySafety := retrySafety
      backoffStrategy := backoffStrategy
      minimumBackoffMs := minimumBackoffMs
      suggestedAction := suggestedAction }

/-- A `u64` in a `json!`. -/
def jsonNumber (n : Nat) : Value := .number (.posInt (.ofNat n))

def validateExpectedStatusCodes (expectedStatusCodes : List UInt16) (actualStatusCode : UInt16)
    (retryAfterMs : Option Nat) (retrySafetyContext : RetrySafetyContext) :
    Option DownstreamHttpError :=
  if expectedStatusCodes.contains actualStatusCode then none
  else
    let retryable := actualStatusCode == 429 || actualStatusCode ≥ 500
    let retryClass :=
      if retryable then if retryAfterMs.isSome then "after_delay" else "with_backoff"
      else "do_not_retry"
    let suggestedAction :=
      if retryable then
        if retryAfterMs.isSome then "retry_after_indicated_delay"
        else "retry_with_backoff_or_check_downstream_capacity"
      else "inspect_downstream_http_contract"
    some (withRetryGuidance {
      kind := "unexpected_status_code"
      code := "mcpg.downstream_http.unexpected_status_code"
      message := s!"Downstream response status {actualStatusCode} did not match the configured " ++
        "expected status codes."
      retryable := retryable
      retryClass := retryClass
      retryAfterMs := retryAfterMs
      idempotencyHint := "pending_idempotency_evaluation"
      callerRetryDecision := "pending_caller_retry_decision"
      retrySafety := "pending_retry_safety_evaluation"
      backoffStrategy := "pending_backoff_strategy_evaluation"
      minimumBackoffMs := none
      suggestedAction := suggestedAction
      statusCode := some actualStatusCode
      details := .object [
        ("actualStatusCode", jsonNumber actualStatusCode.toNat),
        ("expectedStatusCodes", .array (expectedStatusCodes.map fun c => jsonNumber c.toNat)),
        ("retryAfterMs", retryAfterMs.elim .null jsonNumber)] } retrySafetyContext)

def transportDownstreamError (error : String) (retrySafetyContext : RetrySafetyContext) :
    DownstreamHttpError :=
  withRetryGuidance {
    kind := "transport_error"
    code := "mcpg.downstream_http.transport_error"
    message := "Downstream HTTP execution failed before a valid response was received."
    retryable := true
    retryClass := "with_backoff"
    retryAfterMs := none
    idempotencyHint := "pending_idempotency_evaluation"
    callerRetryDecision := "pending_caller_retry_decision"
    retrySafety := "safe_for_automatic_retry"
    backoffStrategy := "exponential_backoff"
    minimumBackoffMs := some defaultBackoffBaseMs
    suggestedAction := "check_downstream_connectivity_and_retry"
    statusCode := none
    details := .object [("error", .string error)] } retrySafetyContext

def isJsonContentType (contentType : String) : Bool :=
  let mediaType := lowerTrim (((contentType.toList.splitOn ';').head?).elim contentType
    fun first => String.ofList first)
  mediaType == "application/json" || "+json".toList.isSuffixOf mediaType.toList

def jsonContentTypeDownstreamError (contentType : Option String) : DownstreamHttpError where
  kind := "invalid_content_type"
  code := "mcpg.downstream_http.invalid_content_type"
  message := "Downstream HTTP JSON call required a JSON response content type, but the response was not JSON."
  retryable := false
  retryClass := "do_not_retry"
  retryAfterMs := none
  idempotencyHint := "potentially_non_idempotent"
  callerRetryDecision := "do_not_retry"
  retrySafety := "do_not_retry"
  backoffStrategy := "no_retry"
  minimumBackoffMs := none
  suggestedAction := "inspect_downstream_response_content_type"
  statusCode := none
  details := .object [("responseContentType", contentType.elim .null .string)]

def jsonBodyDownstreamError (parseError : String) : DownstreamHttpError where
  kind := "invalid_json_body"
  code := "mcpg.downstream_http.invalid_json_body"
  message := "Downstream HTTP JSON call returned a JSON content type, but the body was not valid JSON."
  retryable := false
  retryClass := "do_not_retry"
  retryAfterMs := none
  idempotencyHint := "potentially_non_idempotent"
  callerRetryDecision := "do_not_retry"
  retrySafety := "do_not_retry"
  backoffStrategy := "no_retry"
  minimumBackoffMs := none
  suggestedAction := "inspect_downstream_json_payload"
  statusCode := none
  details := .object [("parseError", .string parseError)]

/-- The value, the parse error, the validation error. -/
def parseAndValidateJsonResponse (J : JsonApi) (response : HttpResponseSummary)
    (requireJsonResponse : Bool) :
    Option Value × Option String × Option DownstreamHttpError :=
  if ¬ response.contentType.any isJsonContentType then
    if requireJsonResponse then
      (none, none, some (jsonContentTypeDownstreamError response.contentType))
    else (none, none, none)
  else
    match J.fromStr response.body with
    | .ok value => (some value, none, none)
    | .error parseError =>
      (none, some parseError,
        if requireJsonResponse then some (jsonBodyDownstreamError parseError) else none)

/-- A value that is returned is what the body text parses to. -/
theorem parseAndValidate_parsed (J : JsonApi) (response : HttpResponseSummary) (require : Bool)
    {v : Value} (h : (parseAndValidateJsonResponse J response require).1 = some v) :
    J.fromStr response.body = .ok v := by
  unfold parseAndValidateJsonResponse at h
  split at h
  · split at h
    · cases h
    · cases h
  · split at h
    · next value hvalue =>
      cases h
      exact hvalue
    · cases h

/-- With a JSON content type, it is returned whenever there is one. -/
theorem parseAndValidate_value (J : JsonApi) (response : HttpResponseSummary) (require : Bool)
    (hjson : response.contentType.any isJsonContentType = true) (v : Value) :
    (parseAndValidateJsonResponse J response require).1 = some v ↔
      J.fromStr response.body = .ok v := by
  unfold parseAndValidateJsonResponse
  rw [if_neg (by simp [hjson])]
  cases J.fromStr response.body with
  | ok value => simp
  | error e => simp

end NetCore
