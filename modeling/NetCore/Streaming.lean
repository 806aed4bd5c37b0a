import NetCore.Exec

/-!
# The streaming call refines the buffered one

Both calls prepare the same request (`executeHttpCall_eq`,
`startHttpCallStreaming_eq`); after that each is a function of what `send`
answers.  `streaming_refines_buffered`: draining the streaming body gives the
summary the buffered call returns, or an error exactly when that does.
-/

namespace NetCore

open Unfold

variable (U : UrlApi) (H : HeaderApi) (R : ReqwestApi U.Url) (profile : HttpRequestProfile)

/-- The URL that is requested: the resolved one with the call's query merged in. -/
def requestUrl (call : CallInputs) : Except String U.Url := do
  let url ← (U.parse call.resolvedUrl).mapError fun e => s!"invalid URL: {e}"
  match call.requestQuery with
  | some query => withQueryString U url query
  | none => pure url

/-- The request both calls send. -/
def preparedRequest (call : CallInputs) : Except String (Request U.Url) := do
  let url ← requestUrl U call
  let traceHeaders ← buildPerCallHeaders H call.requestHeaders call.idempotencyKey
    call.operatorHasIdempotencyKey
  let method := match profile.method with
    | .post => Method.POST
    | .get => Method.GET
  let accept := if profile.requireJsonResponse then "application/json" else "*/*"
  let req := ((Request.new U method url).withHeaders traceHeaders).withHeader "accept"
    (HeaderValue.fromStatic accept)
  return if call.callMode = .jsonBody then req.json call.requestArguments else req

/-- How the buffered call goes on with an answer. -/
def bufferedAnswer (answer : Except (ReqwestError U.Url) (Response U.Url)) (elapsed : Nat) :
    Except String HttpResponseSummary := do
  let resp ← answer.mapError fun e => s!"HTTP request failed: {R.display e.withoutUrl}"
  let (body, truncated) ← readBodyWithLimit R resp.body profile.maxResponseBytes
  return ⟨resp.status, contentTypeOf H resp.headers, retryAfterMsOf H resp.headers, body, truncated,
    elapsed⟩

/-- How the streaming call goes on with an answer. -/
def streamingAnswer (answer : Except (ReqwestError U.Url) (Response U.Url)) :
    Except String (HttpStreamHandle U.Url) := do
  let resp ← answer.mapError fun e => s!"HTTP request failed: {R.display e.withoutUrl}"
  return ⟨resp.body, resp.status, contentTypeOf H resp.headers, retryAfterMsOf H resp.headers,
    responseIsStreaming H resp.headers⟩

/-- What the two calls share: they prepare the request, and hold on to how they resume. -/
theorem preparedRequest_then {ρ : Type} (call : CallInputs)
    (resume : Except (ReqwestError U.Url) (Response U.Url) → ρ) :
    (do
      let url ← (U.parse call.resolvedUrl).mapError fun e => s!"invalid URL: {e}"
      let url ← match call.requestQuery with
        | some query => withQueryString U url query
        | none => pure url
      let traceHeaders ← buildPerCallHeaders H call.requestHeaders call.idempotencyKey
        call.operatorHasIdempotencyKey
      let method := match profile.method with
        | .post => Method.POST
        | .get => Method.GET
      let req := (Request.new U method url).withHeaders traceHeaders
      let accept := if profile.requireJsonResponse then "application/json" else "*/*"
      let req := req.withHeader "accept" (HeaderValue.fromStatic accept)
      let req := if call.callMode = .jsonBody then req.json call.requestArguments else req
      return (⟨req, resume⟩ : Sent U.Url ρ)) =
      (preparedRequest U H profile call).map fun req => ⟨req, resume⟩ := by
  unfold preparedRequest requestUrl
  cases U.parse call.resolvedUrl with
  | error e => rfl
  | ok url =>
    cases call.requestQuery with
    | none =>
      cases buildPerCallHeaders H call.requestHeaders call.idempotencyKey
        call.operatorHasIdempotencyKey with
      | error e => rfl
      | ok headers => rfl
    | some query =>
      simp only [Except.mapError, bind, Except.bind]
      cases withQueryString U url query with
      | error e => rfl
      | ok url =>
        cases buildPerCallHeaders H call.requestHeaders call.idempotencyKey
          call.operatorHasIdempotencyKey with
        | error e => rfl
        | ok headers => rfl

theorem executeHttpCall_eq (call : CallInputs) :
    executeHttpCall U H R profile call =
      (preparedRequest U H profile call).map fun req => ⟨req, bufferedAnswer U H R profile⟩ :=
  preparedRequest_then U H profile call _

theorem startHttpCallStreaming_eq (call : CallInputs) :
    startHttpCallStreaming U H R profile call =
      (preparedRequest U H profile call).map fun req => ⟨req, streamingAnswer U H R⟩ :=
  preparedRequest_then U H profile call _

variable {U}

/-- The `Accept` both calls set. -/
def acceptText (profile : HttpRequestProfile) : String :=
  if profile.requireJsonResponse then "application/json" else "*/*"

/-- The request that is built from the URL and the headers of the call. -/
def requestWith (profile : HttpRequestProfile) (call : CallInputs) (url : U.Url)
    (perCall : HeaderMap) : Request U.Url :=
  let method := match profile.method with
    | .post => Method.POST
    | .get => Method.GET
  let req := ((Request.new U method url).withHeaders perCall).withHeader "accept"
    (HeaderValue.fromStatic (acceptText profile))
  if call.callMode = .jsonBody then req.json call.requestArguments else req

theorem preparedRequest_iff {call : CallInputs} {req : Request U.Url} :
    preparedRequest U H profile call = .ok req ↔
      ∃ url perCall, requestUrl U call = .ok url ∧
        buildPerCallHeaders H call.requestHeaders call.idempotencyKey
          call.operatorHasIdempotencyKey = .ok perCall ∧
        req = requestWith profile call url perCall := by
  unfold preparedRequest
  constructor
  · intro h
    obtain ⟨url, hurl, h⟩ := bind_ok h
    obtain ⟨perCall, hperCall, h⟩ := bind_ok h
    cases h
    exact ⟨url, perCall, hurl, hperCall, rfl⟩
  · rintro ⟨url, perCall, hurl, hperCall, rfl⟩
    rw [hurl]
    simp only [bind, Except.bind, hperCall]
    rfl

theorem new_hostStr (method : Method) (url : U.Url) :
    U.hostStr (Request.new U method url).url = U.hostStr url := by
  unfold Request.new
  cases U.basicAuth url with
  | none => rfl
  | some text => exact U.hostStr_withoutUserinfo url

theorem requestWith_url (call : CallInputs) (url : U.Url) (perCall : HeaderMap) :
    ∃ method, (requestWith profile call url perCall).url = (Request.new U method url).url := by
  unfold requestWith
  by_cases hmode : call.callMode = .jsonBody
  · simp only [hmode, if_true]
    exact ⟨_, rfl⟩
  · simp only [hmode, if_false]
    exact ⟨_, rfl⟩

/-- The request is for the host of the request URL, whatever else is set on it. -/
theorem preparedRequest_host {call : CallInputs} {req : Request U.Url}
    (h : preparedRequest U H profile call = .ok req) :
    ∃ url, requestUrl U call = .ok url ∧ U.hostStr req.url = U.hostStr url := by
  obtain ⟨url, perCall, hurl, -, rfl⟩ := (preparedRequest_iff H profile).1 h
  obtain ⟨method, hnew⟩ := requestWith_url profile call url perCall
  exact ⟨url, hurl, by rw [hnew, new_hostStr]⟩

/-- A call that gets to sending sends the prepared request, and resumes as it does on
every answer. -/
theorem executeHttpCall_sent {call : CallInputs}
    {sent : Sent U.Url (Nat → Except String HttpResponseSummary)}
    (h : executeHttpCall U H R profile call = .ok sent) :
    preparedRequest U H profile call = .ok sent.request ∧
      sent.resume = bufferedAnswer U H R profile := by
  rw [executeHttpCall_eq] at h
  obtain ⟨req, hreq, rfl⟩ := map_ok h
  exact ⟨hreq, rfl⟩

theorem startHttpCallStreaming_sent {call : CallInputs}
    {sent : Sent U.Url (Except String (HttpStreamHandle U.Url))}
    (h : startHttpCallStreaming U H R profile call = .ok sent) :
    preparedRequest U H profile call = .ok sent.request ∧
      sent.resume = streamingAnswer U H R := by
  rw [startHttpCallStreaming_eq] at h
  obtain ⟨req, hreq, rfl⟩ := map_ok h
  exact ⟨hreq, rfl⟩

/-! ## Draining against reading -/

/-- What the caller makes of a started call: the terminal item of the drained
body, turned into a summary. -/
def drainedSummary (handle : HttpStreamHandle U.Url) (items : List (Except String BodyReadStep))
    (elapsed : Nat) : Option (Except String HttpResponseSummary) :=
  (terminal items).map fun item => item.map fun done =>
    finalizeHttpSummary handle.statusCode handle.contentType handle.retryAfterMs elapsed done.1
      done.2

/-- Both fail, or both succeed with one summary, the duration aside. -/
def SameOutcome : Except String HttpResponseSummary → Option (Except String HttpResponseSummary) →
    Prop
  | .ok summary, some (.ok summary') => { summary with durationMs := summary'.durationMs } = summary'
  | .error _, some (.error _) => True
  | _, _ => False

/-- Over any response body the two ways of reading it end alike. -/
theorem drained_sameOutcome (resp : Response U.Url) (elapsed elapsed' : Nat) :
    ∃ handle, streamingAnswer U H R (.ok resp) = .ok handle ∧
      ∃ items, Drains (streamStep R) (readBodyStreaming handle.response profile.maxResponseBytes)
          items ∧
        SameOutcome (bufferedAnswer U H R profile (.ok resp) elapsed)
          (drainedSummary handle items elapsed') := by
  refine ⟨_, rfl, ?_⟩
  have hdrain := streamStep_drains R profile.maxResponseBytes resp.body [] false
  rw [List.take_nil] at hdrain
  refine ⟨_, hdrain, ?_⟩
  have hread := readLoop_eq R profile.maxResponseBytes resp.body [] false
  rw [List.take_nil] at hread
  unfold bufferedAnswer readBodyWithLimit readResponseWithLimit drainedSummary
  rw [terminal_progress, lastItem]
  cases hrec : received resp.body with
  | ok chunks =>
    rw [hrec] at hread
    simp only [Except.mapError, bind, Except.bind, hread]
    rfl
  | error e =>
    rw [hrec] at hread
    simp only [Except.mapError, bind, Except.bind, hread]
    exact trivial

/-- **The streaming path refines the buffered path.**  The calls fail with one
error before anything is sent, or send one request; on any answer to it they
fail with one error, or the drained streaming body and the buffered call have
the same outcome. -/
theorem streaming_refines_buffered (call : CallInputs) :
    match executeHttpCall U H R profile call, startHttpCallStreaming U H R profile call with
    | .error e, .error e' => e = e'
    | .ok out, .ok out' =>
      out.request = out'.request ∧ ∀ answer elapsed elapsed',
        (∃ e, out.resume answer elapsed = .error e ∧ out'.resume answer = .error e) ∨
        ∃ handle items, out'.resume answer = .ok handle ∧
          Drains (streamStep R) (readBodyStreaming handle.response profile.maxResponseBytes) items ∧
          SameOutcome (out.resume answer elapsed) (drainedSummary handle items elapsed')
    | _, _ => False := by
  rw [executeHttpCall_eq, startHttpCallStreaming_eq]
  cases preparedRequest U H profile call with
  | error e => exact rfl
  | ok req =>
    refine ⟨rfl, ?_⟩
    intro answer elapsed elapsed'
    cases answer with
    | error e => exact Or.inl ⟨_, rfl, rfl⟩
    | ok resp =>
      obtain ⟨handle, hhandle, items, hdrain, hsame⟩ :=
        drained_sameOutcome H R profile resp elapsed elapsed'
      exact Or.inr ⟨handle, items, hhandle, hdrain, hsame⟩

end NetCore
