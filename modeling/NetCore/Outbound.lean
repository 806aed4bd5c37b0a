import NetCore.ProtectedHeaders
import NetCore.Runtime
import NetCore.Streaming

/-!
# Outbound headers

Three layers meet in one request: what building the request sets (userinfo of the
URL as `Authorization`, `Accept`, `Content-Type`), what the call carries (trace
headers and the gateway's idempotency key), and the operator's headers, which the
client adds for names the request lacks.  Each layer has at most one value for a
name, and an earlier layer wins (`outbound_getAll`).  So a call sends one idempotency
key at most, and no header of the caller but the trace headers
(`callerHeaders_confined`); and what the operator sets is lost where building the
request sets it too (`operatorHeaders_reach_iff`).

The outbound request is the one with the client's headers added.  What the connection
below does to it is left out: there `Transfer-Encoding` may be dropped or rewritten, and
a proxy of the environment may want headers of its own.
-/

namespace NetCore

open Text HeaderMap

variable {U : UrlApi} {H : HeaderApi} {R : ReqwestApi U.Url} {S : SecurityApi} {X : ExprApi}
variable {profile : HttpRequestProfile}

/-- One of the two calls sends the request. -/
def Sends (U : UrlApi) (H : HeaderApi) (R : ReqwestApi U.Url) (profile : HttpRequestProfile)
    (call : CallInputs) (req : Request U.Url) : Prop :=
  (∃ out, executeHttpCall U H R profile call = .ok out ∧ out.request = req) ∨
    ∃ out, startHttpCallStreaming U H R profile call = .ok out ∧ out.request = req

theorem sends_iff {call : CallInputs} {req : Request U.Url} :
    Sends U H R profile call req ↔ preparedRequest U H profile call = .ok req := by
  constructor
  · intro hsent
    rcases hsent with ⟨out, hout, rfl⟩ | ⟨out, hout, rfl⟩
    · exact (executeHttpCall_sent H R profile hout).1
    · exact (startHttpCallStreaming_sent H R profile hout).1
  · intro hreq
    refine Or.inl ⟨⟨req, bufferedAnswer U H R profile⟩, ?_, rfl⟩
    rw [executeHttpCall_eq, hreq]
    rfl

/-- The headers of the request once the client has added its own, where the request has
none. -/
def outboundHeaders {Url : Type} (defaults : HeaderMap) (req : Request Url) : HeaderMap :=
  req.headers.withDefaults defaults

/-! ## The layers -/

/-- The header values of a text that may be missing. -/
def valuesOf (value : Option String) : List HeaderValue :=
  (value.map HeaderValue.fromStatic).toList

theorem valuesOf_or (first second : Option String) :
    (if valuesOf first = [] then valuesOf second else valuesOf first) =
      valuesOf (first.or second) := by
  cases first with
  | none => rfl
  | some value => rfl

theorem valuesOf_take (value : Option String) : (valuesOf value).take 1 = valuesOf value := by
  cases value with
  | none => rfl
  | some value => rfl

/-- The `Authorization` that userinfo of the request URL becomes. -/
def urlAuthorization (U : UrlApi) (call : CallInputs) : Option String :=
  (requestUrl U call).toOption.bind U.basicAuth

/-- What building the request sets. -/
def builtValue (U : UrlApi) (profile : HttpRequestProfile) (call : CallInputs) (name : String) :
    Option String :=
  if name = "authorization" then urlAuthorization U call
  else if name = "accept" then some (acceptText profile)
  else if name = "content-type" ∧ call.callMode = .jsonBody then some "application/json"
  else none

/-- What the call carries: trace headers, and the gateway's key unless the operator
has one. -/
def callValue (call : CallInputs) (name : String) : Option String :=
  if ["traceparent", "tracestate"].contains name then lastNamed call.requestHeaders name
  else if name = "idempotency-key" ∧ call.operatorHasIdempotencyKey = false then
    call.idempotencyKey
  else none

/-- What the operator sets. -/
def operatorValue (headers : SortedMap String String) (isJsonCall : Bool) (name : String) :
    Option String :=
  lastNamed (headers.entries.filter fun kv => !isProtectedRequestHeader kv.1 isJsonCall) name

theorem defaultHeaders_getAll (hH : HeaderLaws H) {headers : SortedMap String String}
    {isJsonCall : Bool} {defaults : HeaderMap}
    (h : buildDefaultHeaders H headers isJsonCall = .ok defaults) (name : String) :
    defaults.getAll name = valuesOf (operatorValue headers isJsonCall name) := by
  rw [(defaultHeadersLoop_ok hH h).1, getAll_asHeaders]
  rfl

theorem traceHeaders_getAll (hH : HeaderLaws H) {requestHeaders : List (String × String)}
    {map : HeaderMap} (h : traceHeadersLoop H requestHeaders [] = .ok map) (name : String) :
    map.getAll name =
      valuesOf (if ["traceparent", "tracestate"].contains name then lastNamed requestHeaders name
        else none) := by
  rw [(traceHeadersLoop_ok hH h).1, getAll_asHeaders,
    ← lastNamed_filter requestHeaders fun n => ["traceparent", "tracestate"].contains n]
  rfl

theorem perCallHeaders_getAll (hH : HeaderLaws H) {call : CallInputs} {map : HeaderMap}
    (h : buildPerCallHeaders H call.requestHeaders call.idempotencyKey
      call.operatorHasIdempotencyKey = .ok map) (name : String) :
    map.getAll name = valuesOf (callValue call name) := by
  unfold buildPerCallHeaders at h
  obtain ⟨trace, htrace, h⟩ := bind_ok h
  have hgetAll := traceHeaders_getAll hH htrace name
  unfold callValue
  cases hkey : call.idempotencyKey with
  | none =>
    simp only [hkey] at h
    cases h
    rw [hgetAll, ite_self]
  | some key =>
    simp only [hkey] at h
    cases hflag : call.operatorHasIdempotencyKey with
    | true =>
      rw [hflag, if_pos rfl] at h
      cases h
      simp [hgetAll]
    | false =>
      rw [hflag, if_neg (by decide)] at h
      obtain ⟨value, hvalue, h⟩ := bind_ok h
      cases h
      rw [getAll_insert, hgetAll, hH.value (mapError_ok hvalue)]
      by_cases hname : name = "idempotency-key"
      · subst hname
        rfl
      · simp [hname]

theorem json_getAll {Url : Type} (req : Request Url) (args : Value) (name : String) :
    (req.json args).headers.getAll name =
      if name = "content-type" ∧ req.headers.getAll "content-type" = [] then
        [HeaderValue.fromStatic "application/json"]
      else req.headers.getAll name := by
  unfold Request.json
  by_cases hkey : req.headers.containsKey "content-type" = true
  · have hsome := (containsKey_iff _ _).1 hkey
    simp [hkey, hsome]
  · have hnone : req.headers.getAll "content-type" = [] := by
      rw [containsKey_iff] at hkey
      exact not_not.1 hkey
    simp [hkey, hnone]

theorem new_getAll (method : Method) (url : U.Url) (name : String) :
    (Request.new U method url).headers.getAll name =
      valuesOf (if name = "authorization" then U.basicAuth url else none) := by
  unfold Request.new
  cases U.basicAuth url with
  | none =>
    rw [ite_self]
    rfl
  | some text =>
    by_cases hname : name = "authorization"
    · subst hname
      rfl
    · have hnone : getAll [("authorization", HeaderValue.fromStatic text)] name = [] := by
        simp [getAll, Ne.symm hname]
      rw [if_neg hname]
      exact hnone

/-- What the call carries has no `Authorization` among it. -/
theorem callValue_authorization (call : CallInputs) : callValue call "authorization" = none := rfl

/-- The values of the request: what building sets, then what the call carries. -/
theorem requestWith_getAll {call : CallInputs} {url : U.Url} {perCall : HeaderMap}
    (hurl : requestUrl U call = .ok url)
    (hperCall : ∀ name, perCall.getAll name = valuesOf (callValue call name)) (name : String) :
    (requestWith profile call url perCall).headers.getAll name =
      valuesOf ((builtValue U profile call name).or (callValue call name)) := by
  have hauth : urlAuthorization U call = U.basicAuth url := by
    unfold urlAuthorization
    rw [hurl]
    rfl
  have hbase : ∀ method : Method, ∀ name,
      getAll (((Request.new U method url).withHeaders perCall).withHeader "accept"
        (HeaderValue.fromStatic (acceptText profile))).headers name =
      valuesOf ((if name = "authorization" then U.basicAuth url else none).or
          (callValue call name)) ++
        if name = "accept" then [HeaderValue.fromStatic (acceptText profile)] else [] := by
    intro method name
    unfold Request.withHeader Request.withHeaders
    rw [getAll_append, getAll_replaceBy, hperCall, new_getAll]
    congr 1
    by_cases hname : name = "authorization"
    · subst hname
      rw [callValue_authorization, Option.or_none]
      exact if_pos rfl
    · simp only [hname, if_false, Option.none_or]
      split
      · next hnone => exact hnone.symm
      · rfl
  unfold requestWith builtValue
  rw [hauth]
  by_cases hmode : call.callMode = .jsonBody
  · simp only [hmode, if_true, and_true]
    rw [json_getAll, hbase, hbase]
    by_cases hname : name = "content-type"
    · subst hname
      rfl
    · by_cases hacc : name = "accept"
      · subst hacc
        rfl
      · by_cases hauthorization : name = "authorization"
        · simp [hauthorization]
        · simp [hname, hacc, hauthorization]
  · simp only [hmode, if_false, and_false]
    rw [hbase]
    by_cases hacc : name = "accept"
    · subst hacc
      rfl
    · by_cases hauthorization : name = "authorization"
      · simp [hauthorization]
      · simp [hacc, hauthorization]

/-- **Three layers.**  A name goes out with one value or none: what building the
request sets, else what the call carries, else what the operator sets. -/
theorem outbound_getAll (hH : HeaderLaws H) {headers : SortedMap String String}
    {isJsonCall : Bool} {defaults : HeaderMap}
    (hdefaults : buildDefaultHeaders H headers isJsonCall = .ok defaults)
    {call : CallInputs} {req : Request U.Url} (hsent : Sends U H R profile call req)
    (name : String) :
    (outboundHeaders defaults req).getAll name =
      valuesOf (((builtValue U profile call name).or (callValue call name)).or
        (operatorValue headers isJsonCall name)) := by
  obtain ⟨url, perCall, hurl, hperCall, rfl⟩ :=
    (preparedRequest_iff H profile).1 (sends_iff.1 hsent)
  unfold outboundHeaders
  rw [getAll_withDefaults, requestWith_getAll hurl (perCallHeaders_getAll hH hperCall),
    defaultHeaders_getAll hH hdefaults, valuesOf_take, valuesOf_or]

/-! ## The idempotency key and the caller's headers -/

theorem idempotencyName_iff {name : String} :
    eqIgnoreAsciiCase name "Idempotency-Key" = true ↔ toAsciiLowercase name = "idempotency-key" := by
  have hlower : toAsciiLowercase "Idempotency-Key" = "idempotency-key" := by decide
  rw [eqIgnoreAsciiCase, hlower, beq_iff_eq]

/-- The flag of the call, in terms of the resolved headers. -/
theorem operatorHasHeader_iff {rt : NetworkProfileRuntime X} {headers : SortedMap String String}
    (hkeys : headers.keys = rt.rawHeaders.keys) :
    rt.operatorHasHeader "Idempotency-Key" = true ↔
      ∃ kv ∈ headers.entries, toAsciiLowercase kv.1 = "idempotency-key" := by
  unfold NetworkProfileRuntime.operatorHasHeader
  rw [← hkeys, List.any_eq_true]
  constructor
  · rintro ⟨name, hname, heq⟩
    obtain ⟨kv, hkv, rfl⟩ := List.mem_map.1 hname
    exact ⟨kv, hkv, idempotencyName_iff.1 heq⟩
  · rintro ⟨kv, hkv, heq⟩
    exact ⟨kv.1, List.mem_map_of_mem hkv, idempotencyName_iff.2 heq⟩

/-- `Idempotency-Key` is free, in any case. -/
theorem idempotencyName_unprotected {name : String}
    (hname : toAsciiLowercase name = "idempotency-key") (isJsonCall : Bool) :
    isProtectedRequestHeader name isJsonCall = false := by
  have hword : ∀ isJsonCall, isProtectedRequestHeader "idempotency-key" isJsonCall = false := by
    decide
  rw [protected_of_lower hname (by decide) (by decide), hword]

theorem buildPerCallHeaders_filter (hH : HeaderLaws H) {requestHeaders : List (String × String)}
    {key : Option String} {operatorHasKey : Bool} {map : HeaderMap}
    (h : buildPerCallHeaders H requestHeaders key operatorHasKey = .ok map) :
    buildPerCallHeaders H (requestHeaders.filter fun kv => isTraceName kv.1) key operatorHasKey =
      .ok map := by
  unfold buildPerCallHeaders at h ⊢
  obtain ⟨trace, htrace, h⟩ := bind_ok h
  rw [(traceHeadersLoop_ok hH htrace).2]
  exact h

/-- Without its other headers the call sends the same request. -/
theorem sends_filter (hH : HeaderLaws H) {call : CallInputs} {req : Request U.Url}
    (hsent : Sends U H R profile call req) :
    Sends U H R profile
      { call with requestHeaders := call.requestHeaders.filter fun kv => isTraceName kv.1 } req := by
  rw [sends_iff, preparedRequest_iff] at hsent ⊢
  obtain ⟨url, perCall, hurl, hperCall, rfl⟩ := hsent
  exact ⟨url, perCall, hurl, buildPerCallHeaders_filter hH hperCall, rfl⟩

section Confined

variable {rt : NetworkProfileRuntime X} {headers : SortedMap String String} {isJsonCall : Bool}
  {defaults : HeaderMap} {call : CallInputs} {req : Request U.Url}

/-- A key of the operator goes out, and keeps the gateway's out. -/
theorem operatorKey_sent (hH : HeaderLaws H) (hkeys : headers.keys = rt.rawHeaders.keys)
    (hdefaults : buildDefaultHeaders H headers isJsonCall = .ok defaults)
    (hflag : call.operatorHasIdempotencyKey = rt.operatorHasHeader "Idempotency-Key")
    (hsent : Sends U H R profile call req)
    (hhas : ∃ kv ∈ headers.entries, toAsciiLowercase kv.1 = "idempotency-key") :
    ∃ kv ∈ headers.entries, toAsciiLowercase kv.1 = "idempotency-key" ∧
      (outboundHeaders defaults req).getAll "idempotency-key" = [HeaderValue.fromStatic kv.2] := by
  have hbuilt : builtValue U profile call "idempotency-key" = none := rfl
  have hcall : callValue call "idempotency-key" = none := by
    have hon : call.operatorHasIdempotencyKey = true := by
      rw [hflag, operatorHasHeader_iff hkeys]
      exact hhas
    simp [callValue, hon]
  cases hvalue : operatorValue headers isJsonCall "idempotency-key" with
  | none =>
    obtain ⟨kv, hkv, hname⟩ := hhas
    have hfree := idempotencyName_unprotected hname isJsonCall
    exact absurd hname (lastNamed_none_iff.1 hvalue kv (List.mem_filter.2 ⟨hkv, by simp [hfree]⟩))
  | some value =>
    obtain ⟨kv, hkv, hname, rfl⟩ := lastNamed_some hvalue
    refine ⟨kv, List.mem_of_mem_filter hkv, hname, ?_⟩
    rw [outbound_getAll hH hdefaults hsent, hbuilt, hcall, hvalue]
    rfl

/-- Without one, the gateway's key goes out if it has one. -/
theorem gatewayKey_sent (hH : HeaderLaws H) (hkeys : headers.keys = rt.rawHeaders.keys)
    (hdefaults : buildDefaultHeaders H headers isJsonCall = .ok defaults)
    (hflag : call.operatorHasIdempotencyKey = rt.operatorHasHeader "Idempotency-Key")
    (hsent : Sends U H R profile call req)
    (hnone : ∀ kv ∈ headers.entries, toAsciiLowercase kv.1 ≠ "idempotency-key") :
    (outboundHeaders defaults req).getAll "idempotency-key" = valuesOf call.idempotencyKey := by
  have hbuilt : builtValue U profile call "idempotency-key" = none := rfl
  have hoperator : operatorValue headers isJsonCall "idempotency-key" = none :=
    lastNamed_none_iff.2 fun kv hkv => hnone kv (List.mem_of_mem_filter hkv)
  have hoff : call.operatorHasIdempotencyKey = false := by
    rw [hflag, ← Bool.not_eq_true, operatorHasHeader_iff hkeys]
    rintro ⟨kv, hkv, hname⟩
    exact hnone kv hkv hname
  have hcall : callValue call "idempotency-key" = call.idempotencyKey := by
    simp [callValue, hoff]
  rw [outbound_getAll hH hdefaults hsent, hbuilt, hcall, hoperator, Option.or_none, Option.none_or]

/-- The caller's trace headers go out, the last one of each. -/
theorem traceHeader_sent (hH : HeaderLaws H)
    (hdefaults : buildDefaultHeaders H headers isJsonCall = .ok defaults)
    (hsent : Sends U H R profile call req) {name value : String}
    (hname : name ∈ ["traceparent", "tracestate"])
    (hvalue : lastNamed call.requestHeaders name = some value) :
    (outboundHeaders defaults req).getAll name = [HeaderValue.fromStatic value] := by
  have hbuilt : builtValue U profile call name = none := by
    rcases List.mem_pair.1 hname with rfl | rfl
    · rfl
    · rfl
  have hcall : callValue call name = some value := by
    rw [callValue, if_pos (List.contains_iff_mem.2 hname), hvalue]
  rw [outbound_getAll hH hdefaults hsent, hbuilt, hcall]
  rfl

end Confined

/-- **One idempotency key, and nothing else of the caller.**  The operator's key
goes out if there is one, else the gateway's; the trace headers are the caller's
last ones; the caller's other headers change nothing. -/
theorem callerHeaders_confined (hH : HeaderLaws H) {rt : NetworkProfileRuntime X}
    {headers : SortedMap String String} (hkeys : headers.keys = rt.rawHeaders.keys)
    {isJsonCall : Bool} {defaults : HeaderMap}
    (hdefaults : buildDefaultHeaders H headers isJsonCall = .ok defaults) {call : CallInputs}
    (hflag : call.operatorHasIdempotencyKey = rt.operatorHasHeader "Idempotency-Key")
    {req : Request U.Url} (hsent : Sends U H R profile call req) :
    ((∃ kv ∈ headers.entries, toAsciiLowercase kv.1 = "idempotency-key") →
      ∃ kv ∈ headers.entries, toAsciiLowercase kv.1 = "idempotency-key" ∧
        (outboundHeaders defaults req).getAll "idempotency-key" =
          [HeaderValue.fromStatic kv.2]) ∧
    ((∀ kv ∈ headers.entries, toAsciiLowercase kv.1 ≠ "idempotency-key") →
      (outboundHeaders defaults req).getAll "idempotency-key" = valuesOf call.idempotencyKey) ∧
    (∀ name ∈ ["traceparent", "tracestate"], ∀ value,
      lastNamed call.requestHeaders name = some value →
      (outboundHeaders defaults req).getAll name = [HeaderValue.fromStatic value]) ∧
    Sends U H R profile
      { call with requestHeaders := call.requestHeaders.filter fun kv => isTraceName kv.1 } req := by
  refine ⟨?_, ?_, ?_, sends_filter hH hsent⟩
  · exact operatorKey_sent hH hkeys hdefaults hflag hsent
  · exact gatewayKey_sent hH hkeys hdefaults hflag hsent
  · intro name hname value hvalue
    exact traceHeader_sent hH hdefaults hsent hname hvalue

/-- The resolved headers have the names the flag was computed on. -/
theorem resolveBundle_rawKeys {rawUrl : String} {rawHeaders : SortedMap String String}
    {secretRefs : List String} {rt : NetworkProfileRuntime X}
    (hrt : NetworkProfileRuntime.register X rawUrl rawHeaders profile secretRefs = .ok rt)
    {exprCtx : X.ExprContext} {answer : Except BackendHostError Value} {b : Bundle}
    (hb : resolveBundle rt exprCtx answer = .ok b) : b.headers.keys = rt.rawHeaders.keys := by
  rw [(resolveBundle_ok hb).1]
  unfold NetworkProfileRuntime.register at hrt
  obtain ⟨compiledUrl, -, hrt⟩ := bind_ok hrt
  obtain ⟨compiledHeaders, hcompiled, hrt⟩ := bind_ok hrt
  cases hrt
  exact SortedMap.traverse_keys hcompiled

/-- A profile with an `Accept` and a key of its own. -/
def csvHeaders : SortedMap String String :=
  ⟨[("Accept", "text/csv"), ("idempotency-KEY", "op-1")], List.pairwise_pair.2 (by decide)⟩

def csvProfile : HttpRequestProfile :=
  ⟨"https://api.test/export", .get, true, 65536, .fromSecs 30, false⟩

def csvRuntime : NetworkProfileRuntime plainExprApi :=
  (NetworkProfileRuntime.register plainExprApi "https://api.test/export" csvHeaders csvProfile
    []).toOption.get rfl

/-- A call of it; the gateway has a key too, and the caller sends two headers. -/
def csvCall : CallInputs where
  callMode := .forMethod csvProfile.method
  requestArguments := .null
  requestQuery := none
  requestHeaders := [("TraceParent", "00-1"), ("X-Other", "x")]
  idempotencyKey := some "gw-1"
  operatorHasIdempotencyKey := csvRuntime.operatorHasHeader "Idempotency-Key"
  resolvedUrl := "https://api.test/export"

theorem csvCall_sends :
    ∃ req, Sends plainUrlApi plainHeaderApi plainReqwestApi csvProfile csvCall req :=
  ⟨_, sends_iff.2 rfl⟩

theorem callerHeaders_confined_csv :
    ∃ defaults req, buildDefaultHeaders plainHeaderApi csvHeaders false = .ok defaults ∧
      Sends plainUrlApi plainHeaderApi plainReqwestApi csvProfile csvCall req ∧
      (∃ kv ∈ csvHeaders.entries, toAsciiLowercase kv.1 = "idempotency-key" ∧
        (outboundHeaders defaults req).getAll "idempotency-key" =
          [HeaderValue.fromStatic kv.2]) ∧
      (outboundHeaders defaults req).getAll "traceparent" = [HeaderValue.fromStatic "00-1"] := by
  obtain ⟨defaults, hdefaults⟩ :
      ∃ defaults, buildDefaultHeaders plainHeaderApi csvHeaders false = .ok defaults := ⟨_, rfl⟩
  obtain ⟨req, hsent⟩ := csvCall_sends
  have hkeys : csvHeaders.keys = csvRuntime.rawHeaders.keys := rfl
  obtain ⟨hkey, -, htrace, -⟩ :=
    callerHeaders_confined plainHeaderApi_laws hkeys hdefaults rfl hsent
  refine ⟨defaults, req, hdefaults, hsent, hkey ?_, htrace _ (by decide) _ (by decide)⟩
  exact ⟨("idempotency-KEY", "op-1"), by decide, by decide⟩

/-! ## The operator's headers -/

/-- Every operator header that is neither protected nor a trace header goes out as
the operator set it. -/
def OperatorHeadersReach (profile : HttpRequestProfile) (headers : SortedMap String String)
    (outbound : HeaderMap) : Prop :=
  ∀ kv ∈ headers.entries, isProtectedRequestHeader kv.1 (profile.method = .post) = false →
    isTraceName kv.1 = false →
    outbound.getAll (toAsciiLowercase kv.1) = [HeaderValue.fromStatic kv.2]

theorem operatorValue_of_distinct {headers : SortedMap String String}
    (hdistinct : (headers.keys.map toAsciiLowercase).Nodup) {isJsonCall : Bool}
    {kv : String × String} (hkv : kv ∈ headers.entries)
    (hfree : isProtectedRequestHeader kv.1 isJsonCall = false) :
    operatorValue headers isJsonCall (toAsciiLowercase kv.1) = some kv.2 := by
  unfold operatorValue
  apply lastNamed_of_nodup
  · unfold SortedMap.keys at hdistinct
    rw [List.map_map] at hdistinct
    exact (List.filter_sublist.map _).nodup hdistinct
  · exact List.mem_filter.2 ⟨hkv, by simp [hfree]⟩

/-- `Accept` and `Content-Type` are protected in JSON calls and free in others. -/
theorem callNames_protected {name word : String} (hname : toAsciiLowercase name = word)
    (hword : word ∈ ["accept", "content-type"]) (isJsonCall : Bool) :
    isProtectedRequestHeader name isJsonCall = isJsonCall := by
  have hwords : ∀ word ∈ ["accept", "content-type"], ∀ isJsonCall,
      isProtectedRequestHeader word isJsonCall = isJsonCall ∧ lowerTrim word = word ∧
        isToken word = true := by
    decide
  obtain ⟨hprotected, hlower, htoken⟩ := hwords word hword isJsonCall
  rw [protected_of_lower hname htoken hlower, hprotected]

/-- Of the names an operator can set, a call sets `Accept` and `Authorization` only. -/
theorem callLayers_free {headers : SortedMap String String} {rt : NetworkProfileRuntime X}
    (hkeys : headers.keys = rt.rawHeaders.keys) {call : CallInputs}
    (hmode : call.callMode = .forMethod profile.method)
    (hflag : call.operatorHasIdempotencyKey = rt.operatorHasHeader "Idempotency-Key")
    {kv : String × String} (hkv : kv ∈ headers.entries)
    (hfree : isProtectedRequestHeader kv.1 (profile.method = .post) = false)
    (htrace : isTraceName kv.1 = false) :
    (builtValue U profile call (toAsciiLowercase kv.1)).or
        (callValue call (toAsciiLowercase kv.1)) =
      if toAsciiLowercase kv.1 = "authorization" then urlAuthorization U call
      else if toAsciiLowercase kv.1 = "accept" then some (acceptText profile) else none := by
  have hcall : callValue call (toAsciiLowercase kv.1) = none := by
    unfold callValue
    rw [if_neg (by exact Bool.eq_false_iff.1 htrace), if_neg]
    rintro ⟨hname, hoff⟩
    rw [hflag, (operatorHasHeader_iff hkeys).2 ⟨kv, hkv, hname⟩] at hoff
    cases hoff
  have hcontent : ¬ (toAsciiLowercase kv.1 = "content-type" ∧ call.callMode = .jsonBody) := by
    rintro ⟨hname, hjson⟩
    rw [callNames_protected hname (by decide), decide_eq_false_iff_not] at hfree
    rw [hmode] at hjson
    cases hmethod : profile.method with
    | post => exact hfree hmethod
    | get =>
      rw [hmethod] at hjson
      cases hjson
  rw [hcall, Option.or_none, builtValue, if_neg hcontent]

/-- The operator sets no `Accept` but the one the call sets, unless `Accept` is
protected. -/
def AcceptAgrees (profile : HttpRequestProfile) (headers : SortedMap String String) : Prop :=
  profile.method = .post ∨
    ∀ kv ∈ headers.entries, toAsciiLowercase kv.1 = "accept" → kv.2 = acceptText profile

/-- The operator sets no `Authorization` beside userinfo in the request URL, or the same. -/
def AuthorizationAgrees (U : UrlApi) (call : CallInputs) (headers : SortedMap String String) :
    Prop :=
  ∀ kv ∈ headers.entries, toAsciiLowercase kv.1 = "authorization" →
    ∀ text, urlAuthorization U call = some text → kv.2 = text

/-- `Authorization` is free in every call. -/
theorem authorization_free {name : String} (hname : toAsciiLowercase name = "authorization")
    (isJsonCall : Bool) :
    isProtectedRequestHeader name isJsonCall = false ∧ isTraceName name = false := by
  have hword : ∀ isJsonCall, isProtectedRequestHeader "authorization" isJsonCall = false := by
    decide
  constructor
  · rw [protected_of_lower hname (by decide) (by decide), hword]
  · rw [isTraceName, hname]
    rfl

theorem valuesOf_eq_singleton {value : Option String} {text : String} :
    valuesOf value = [HeaderValue.fromStatic text] ↔ value = some text := by
  cases value with
  | none => exact ⟨nofun, nofun⟩
  | some other =>
    constructor
    · intro h
      rw [utf8Bytes_inj (List.singleton_inj.1 h)]
    · intro h
      rw [h]
      rfl

/-- **When the operator's headers reach the upstream.**  An `Accept` that is not
protected gets lost exactly if it is not the text the call sets, and an
`Authorization` exactly if the URL has userinfo that does not amount to it. -/
theorem operatorHeaders_reach_iff (hH : HeaderLaws H) {rt : NetworkProfileRuntime X}
    {headers : SortedMap String String} (hkeys : headers.keys = rt.rawHeaders.keys)
    (hdistinct : (headers.keys.map toAsciiLowercase).Nodup) {resolvedUrl : String}
    {answer : BuildAnswer S.Ip} {client : Client S.Ip}
    (hclient : buildHttpClient U H S profile resolvedUrl headers answer = .ok client)
    {call : CallInputs} (hmode : call.callMode = .forMethod profile.method)
    (hflag : call.operatorHasIdempotencyKey = rt.operatorHasHeader "Idempotency-Key")
    {req : Request U.Url} (hsent : Sends U H R profile call req) :
    OperatorHeadersReach profile headers (outboundHeaders client.defaultHeaders req) ↔
      AcceptAgrees profile headers ∧ AuthorizationAgrees U call headers := by
  have hdefaults := buildHttpClient_defaultHeaders hclient
  have hvalue : ∀ kv ∈ headers.entries,
      isProtectedRequestHeader kv.1 (profile.method = .post) = false →
      isTraceName kv.1 = false →
      ((outboundHeaders client.defaultHeaders req).getAll (toAsciiLowercase kv.1) =
          [HeaderValue.fromStatic kv.2] ↔
        (if toAsciiLowercase kv.1 = "authorization" then urlAuthorization U call
          else if toAsciiLowercase kv.1 = "accept" then some (acceptText profile) else none).or
            (some kv.2) = some kv.2) := by
    intro kv hkv hfree htrace
    rw [outbound_getAll hH hdefaults hsent, callLayers_free hkeys hmode hflag hkv hfree htrace,
      operatorValue_of_distinct hdistinct hkv hfree, valuesOf_eq_singleton]
  constructor
  · intro hreach
    refine ⟨?_, ?_⟩
    · by_cases hpost : profile.method = .post
      · exact Or.inl hpost
      · refine Or.inr ?_
        intro kv hkv hname
        have hfree : isProtectedRequestHeader kv.1 (profile.method = .post) = false := by
          rw [callNames_protected hname (by decide), decide_eq_false_iff_not]
          exact hpost
        have htrace : isTraceName kv.1 = false := by
          rw [isTraceName, hname]
          rfl
        have hsame := (hvalue kv hkv hfree htrace).1 (hreach kv hkv hfree htrace)
        rw [hname, if_neg (by decide), if_pos rfl, Option.some_or, Option.some.injEq] at hsame
        exact hsame.symm
    · intro kv hkv hname text htext
      obtain ⟨hfree, htrace⟩ := authorization_free hname (profile.method = .post)
      have hsame := (hvalue kv hkv hfree htrace).1 (hreach kv hkv hfree htrace)
      rw [if_pos hname, htext, Option.some_or, Option.some.injEq] at hsame
      exact hsame.symm
  · rintro ⟨haccept, hauthorization⟩ kv hkv hfree htrace
    rw [hvalue kv hkv hfree htrace]
    by_cases hname : toAsciiLowercase kv.1 = "authorization"
    · rw [if_pos hname]
      cases htext : urlAuthorization U call with
      | none => rfl
      | some text =>
        rw [Option.some_or, hauthorization kv hkv hname text htext]
    · by_cases hname' : toAsciiLowercase kv.1 = "accept"
      · rw [callNames_protected hname' (by decide), decide_eq_false_iff_not] at hfree
        rw [if_neg hname, if_pos hname', Option.some_or, haccept.resolve_left hfree kv hkv hname']
      · rw [if_neg hname, if_neg hname', Option.none_or]

/-- The `Accept` of the operator is free in a `GET` call, and the call sets its own. -/
theorem operatorHeaders_reach_csv :
    (csvHeaders.keys.map toAsciiLowercase).Nodup ∧ ∃ client req,
      buildHttpClient plainUrlApi plainHeaderApi plainSecurityApi csvProfile csvCall.resolvedUrl
        csvHeaders mixedAnswer = .ok client ∧
      Sends plainUrlApi plainHeaderApi plainReqwestApi csvProfile csvCall req ∧
      ¬ OperatorHeadersReach csvProfile csvHeaders
        (outboundHeaders client.defaultHeaders req) := by
  refine ⟨by decide, _, _, rfl, sends_iff.2 rfl, ?_⟩
  intro hreach
  have haccept := hreach ("Accept", "text/csv") (by decide) (by decide) (by decide)
  revert haccept
  decide

theorem operatorHeaders_reach_iff_csv :
    ∃ client req,
      buildHttpClient plainUrlApi plainHeaderApi plainSecurityApi csvProfile csvCall.resolvedUrl
        csvHeaders mixedAnswer = .ok client ∧
      Sends plainUrlApi plainHeaderApi plainReqwestApi csvProfile csvCall req ∧
      (OperatorHeadersReach csvProfile csvHeaders (outboundHeaders client.defaultHeaders req) ↔
        AcceptAgrees csvProfile csvHeaders ∧
          AuthorizationAgrees plainUrlApi csvCall csvHeaders) := by
  obtain ⟨client, hclient⟩ :
      ∃ client, buildHttpClient plainUrlApi plainHeaderApi plainSecurityApi csvProfile
        csvCall.resolvedUrl csvHeaders mixedAnswer = .ok client := ⟨_, rfl⟩
  obtain ⟨req, hsent⟩ := csvCall_sends
  have hkeys : csvHeaders.keys = csvRuntime.rawHeaders.keys := rfl
  exact ⟨client, req, hclient, hsent,
    operatorHeaders_reach_iff plainHeaderApi_laws hkeys (by decide) hclient rfl rfl hsent⟩

end NetCore
