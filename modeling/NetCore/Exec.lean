import NetCore.Body

/-!
# One HTTP call

`executeHttpCall` and `startHttpCallStreaming` each run up to the moment the
request is sent: they fail there, or name the request and go on with the answer
(`Sent`).  The buffered call reads the body itself; the streaming one returns a
handle, whose body the caller drains and turns into a summary by
`finalizeHttpSummary`.  The clock enters as the milliseconds elapsed when the
summary is made.
-/

namespace NetCore

open Text

/-- `s.trim().to_ascii_lowercase()`. -/
def lowerTrim (s : String) : String := toAsciiLowercase (String.ofList (trim s.toList))

def isProtectedRequestHeader (name : String) (isJsonCall : Bool) : Bool :=
  let lower := lowerTrim name
  ["host", "connection", "content-length"].contains lower ||
  (isJsonCall && ["accept", "content-type"].contains lower) ||
  "x-forwarded-".toList.isPrefixOf lower.toList ||
  ["forwarded", "via", "x-real-ip", "x-request-id"].contains lower

/-- `build_default_headers`, from the entries that are left and the map so far. -/
def defaultHeadersLoop (H : HeaderApi) (isJsonCall : Bool) :
    List (String × String) → HeaderMap → Except String HeaderMap
  | [], map => .ok map
  | (name, value) :: rest, map =>
    if isProtectedRequestHeader name isJsonCall then defaultHeadersLoop H isJsonCall rest map
    else do
      let headerName ← (H.headerName name).mapError fun e => s!"invalid header name '{name}': {e}"
      let headerValue ← (H.headerValue value).mapError
        fun e => s!"invalid header value for '{name}': {e}"
      defaultHeadersLoop H isJsonCall rest (map.insert headerName headerValue)

def buildDefaultHeaders (H : HeaderApi) (profileHeaders : SortedMap String String)
    (isJsonCall : Bool) : Except String HeaderMap :=
  defaultHeadersLoop H isJsonCall profileHeaders.entries []

/-- What the caller of `execute_http_call` passes beside the client and the profile. -/
structure CallInputs where
  callMode : HttpCallMode
  requestArguments : Value
  requestQuery : Option String
  requestHeaders : List (String × String)
  idempotencyKey : Option String
  operatorHasIdempotencyKey : Bool
  resolvedUrl : String

/-- The trace headers of `build_per_call_headers`. -/
def traceHeadersLoop (H : HeaderApi) :
    List (String × String) → HeaderMap → Except String HeaderMap
  | [], map => .ok map
  | (name, value) :: rest, map =>
    if ¬ ["traceparent", "tracestate"].contains (lowerTrim name) then traceHeadersLoop H rest map
    else do
      let headerName ← (H.headerName name).mapError fun e => s!"invalid trace header '{name}': {e}"
      let headerValue ← (H.headerValue value).mapError
        fun e => s!"invalid trace header value for '{name}': {e}"
      traceHeadersLoop H rest (map.insert headerName headerValue)

def buildPerCallHeaders (H : HeaderApi) (requestHeaders : List (String × String))
    (idempotencyKey : Option String) (operatorHasIdempotencyKey : Bool) :
    Except String HeaderMap := do
  let map ← traceHeadersLoop H requestHeaders []
  match idempotencyKey with
  | some key =>
    if operatorHasIdempotencyKey then return map
    let headerValue ← (H.headerValue key).mapError
      fun e => s!"invalid Idempotency-Key value: {e}"
    -- the literal `Idempotency-Key` is a header name
    return map.insert "idempotency-key" headerValue
  | none => return map

def withQueryString (U : UrlApi) (url : U.Url) (query : String) : Except String U.Url :=
  if query = "" then .ok url
  else
    let merged :=
      match U.query url with
      | some existing => if existing ≠ "" then s!"{existing}&{query}" else query
      | none => query
    .ok (U.setQuery url (some merged))

/-- `str::parse::<u64>`. -/
def parseU64 (s : List Char) : Option Nat :=
  let digits : List Char := match s with
    | '+' :: rest => rest
    | s => s
  let n := digits.foldl (fun n c => n * 10 + (c.toNat - '0'.toNat)) 0
  if digits ≠ [] ∧ digits.all Char.isDigit ∧ n < 2 ^ 64 then some n else none

def parseRetryAfterMs (value : String) : Option Nat :=
  match parseU64 (trim value.toList) with
  | some secs => if secs * 1000 < 2 ^ 64 then some (secs * 1000) else none
  | none => none

def contentTypeOf (H : HeaderApi) (headers : HeaderMap) : Option String :=
  (headers.get "content-type").bind H.toStr

def retryAfterMsOf (H : HeaderApi) (headers : HeaderMap) : Option Nat :=
  ((headers.get "retry-after").bind H.toStr).bind parseRetryAfterMs

def eqIgnoreAsciiCase (s t : String) : Bool := toAsciiLowercase s == toAsciiLowercase t

def responseIsStreaming (H : HeaderApi) (headers : HeaderMap) : Bool :=
  let transferEncoding := ((headers.get "transfer-encoding").bind H.toStr).getD ""
  let contentType := ((headers.get "content-type").bind H.toStr).getD ""
  (transferEncoding.toList.splitOn ',').any
    (fun tok => eqIgnoreAsciiCase (String.ofList (trim tok)) "chunked") ||
  (((contentType.toList.splitOn ';').head?).map
    fun tok => eqIgnoreAsciiCase (String.ofList (trim tok)) "text/event-stream").getD false ||
  !headers.containsKey "content-length"

/-- A call that has its request ready: the request, and how the call goes on
with what `send` answers. -/
structure Sent (Url ρ : Type) where
  request : Request Url
  resume : Except (ReqwestError Url) (Response Url) → ρ

def executeHttpCall (U : UrlApi) (H : HeaderApi) (R : ReqwestApi U.Url)
    (profile : HttpRequestProfile) (call : CallInputs) :
    Except String (Sent U.Url (Nat → Except String HttpResponseSummary)) := do
  let url ← (U.parse call.resolvedUrl).mapError fun e => s!"invalid URL: {e}"
  let url ← match call.requestQuery with
    | some query => withQueryString U url query
    | none => pure url
  let traceHeaders ← buildPerCallHeaders H call.requestHeaders call.idempotencyKey
    call.operatorHasIdempotencyKey
  let method := match profile.method with
    | .post => Method.POST
    | .get => Method.GET
  let req := (Request.new U method url).withHeaders traceHeaders
  let accept := if profile.requireJsonResponse then "application/json" else "*/*"
  let req := req.withHeader "accept" (HeaderValue.fromStatic accept)
  let req := if call.callMode = .jsonBody then req.json call.requestArguments else req
  return ⟨req, fun answer elapsed => do
    let resp ← answer.mapError fun e => s!"HTTP request failed: {R.display e.withoutUrl}"
    let (body, truncated) ← readBodyWithLimit R resp.body profile.maxResponseBytes
    return {
      statusCode := resp.status
      contentType := contentTypeOf H resp.headers
      retryAfterMs := retryAfterMsOf H resp.headers
      body := body
      bodyTruncated := truncated
      durationMs := elapsed }⟩

structure HttpStreamHandle (Url : Type) where
  response : BodyStream Url
  statusCode : UInt16
  contentType : Option String
  retryAfterMs : Option Nat
  isStreaming : Bool

def startHttpCallStreaming (U : UrlApi) (H : HeaderApi) (R : ReqwestApi U.Url)
    (profile : HttpRequestProfile) (call : CallInputs) :
    Except String (Sent U.Url (Except String (HttpStreamHandle U.Url))) := do
  let url ← (U.parse call.resolvedUrl).mapError fun e => s!"invalid URL: {e}"
  let url ← match call.requestQuery with
    | some query => withQueryString U url query
    | none => pure url
  let traceHeaders ← buildPerCallHeaders H call.requestHeaders call.idempotencyKey
    call.operatorHasIdempotencyKey
  let method := match profile.method with
    | .post => Method.POST
    | .get => Method.GET
  let req := (Request.new U method url).withHeaders traceHeaders
  let accept := if profile.requireJsonResponse then "application/json" else "*/*"
  let req := req.withHeader "accept" (HeaderValue.fromStatic accept)
  let req := if call.callMode = .jsonBody then req.json call.requestArguments else req
  return ⟨req, fun answer => do
    let resp ← answer.mapError fun e => s!"HTTP request failed: {R.display e.withoutUrl}"
    return {
      response := resp.body
      statusCode := resp.status
      contentType := contentTypeOf H resp.headers
      retryAfterMs := retryAfterMsOf H resp.headers
      isStreaming := responseIsStreaming H resp.headers }⟩

def finalizeHttpSummary (handleStatus : UInt16) (handleContentType : Option String)
    (handleRetryAfterMs : Option Nat) (elapsed : Nat) (body : String) (bodyTruncated : Bool) :
    HttpResponseSummary where
  statusCode := handleStatus
  contentType := handleContentType
  retryAfterMs := handleRetryAfterMs
  body := body
  bodyTruncated := bodyTruncated
  durationMs := elapsed

end NetCore
