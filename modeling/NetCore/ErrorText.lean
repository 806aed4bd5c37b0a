import NetCore.Streaming

/-!
# Error texts and the resolved URL

`World` is what the network does to a request, whatever its URL: an answer or a
failure to send, and body items.  A failure may carry the URL of the request it
happened to (`Failure.on`).  Two calls that differ in the resolved URL only see
the same world; `SameErrorStrings` says that they cannot be told apart by their
error texts.

The code strips the URL from every failure but those the streaming reader reports.
These are items of the body, and an item of a body carries no URL
(`BodyWithoutUrl`), so the texts are always the same (`sameErrorStrings`).
-/

namespace NetCore

open Unfold

structure Failure where
  detail : String
  carriesUrl : Bool

def Failure.on {Url : Type} (f : Failure) (url : Url) : ReqwestError Url :=
  ⟨f.detail, if f.carriesUrl then some url else none⟩

structure World where
  send : Except Failure (UInt16 × HeaderMap)
  body : List (Except Failure Bytes)

/-- What reqwest says of `bytes_stream`: the URL is put on a failure to send, never on
an item of the body. -/
def BodyWithoutUrl (w : World) : Prop :=
  ∀ f, Except.error f ∈ w.body → f.carriesUrl = false

def World.bodyFor {Url : Type} (w : World) (url : Url) : BodyStream Url :=
  w.body.map fun item => item.mapError (·.on url)

def World.answerTo {Url : Type} (w : World) (url : Url) :
    Except (ReqwestError Url) (Response Url) :=
  match w.send with
  | .ok (status, headers) => .ok ⟨status, headers, w.bodyFor url⟩
  | .error f => .error (f.on url)

def errorOf {α : Type} : Except String α → Option String
  | .ok _ => none
  | .error e => some e

/-- `Display` prints the URL an error carries, inside a text that depends on the
rest of the error only. -/
def PrintsUrl (U : UrlApi) (R : ReqwestApi U.Url) : Prop :=
  ∀ detail, ∃ before after, ∀ url, R.display ⟨detail, some url⟩ = before ++ U.asStr url ++ after

variable (U : UrlApi) (H : HeaderApi) (R : ReqwestApi U.Url) (profile : HttpRequestProfile)

def executed (call : CallInputs) (w : World) (elapsed : Nat) : Except String HttpResponseSummary :=
  match executeHttpCall U H R profile call with
  | .ok out => out.resume (w.answerTo out.request.url) elapsed
  | .error e => .error e

def started (call : CallInputs) (w : World) : Except String (HttpStreamHandle U.Url) :=
  match startHttpCallStreaming U H R profile call with
  | .ok out => out.resume (w.answerTo out.request.url)
  | .error e => .error e

/-- The two calls end in the same error texts, and so do the two readers on the
responses they are answered with. -/
structure SameErrorStrings (call₁ call₂ : CallInputs) (w : World) : Prop where
  execute : ∀ elapsed, errorOf (executed U H R profile call₁ w elapsed) =
    errorOf (executed U H R profile call₂ w elapsed)
  start : errorOf (started U H R profile call₁ w) = errorOf (started U H R profile call₂ w)
  readResponse : ∀ h₁ h₂, started U H R profile call₁ w = .ok h₁ →
    started U H R profile call₂ w = .ok h₂ → ∀ limit,
      errorOf (readResponseWithLimit R h₁.response limit) =
        errorOf (readResponseWithLimit R h₂.response limit)
  readBody : ∀ h₁ h₂, started U H R profile call₁ w = .ok h₁ →
    started U H R profile call₂ w = .ok h₂ → ∀ limit items₁ items₂,
      Drains (streamStep R) (readBodyStreaming h₁.response limit) items₁ →
      Drains (streamStep R) (readBodyStreaming h₂.response limit) items₂ →
      items₁.map errorOf = items₂.map errorOf

/-! ## The request and the answer -/

variable {U}

theorem withQueryString_ok (url : U.Url) (query : String) :
    ∃ url', withQueryString U url query = .ok url' := by
  unfold withQueryString
  split
  · exact ⟨url, rfl⟩
  · exact ⟨_, rfl⟩

theorem requestUrl_ok (call : CallInputs) {parsed : U.Url}
    (h : U.parse call.resolvedUrl = .ok parsed) : ∃ url, requestUrl U call = .ok url := by
  unfold requestUrl
  rw [h]
  cases call.requestQuery with
  | none => exact ⟨parsed, rfl⟩
  | some query => exact withQueryString_ok parsed query

/-- Whether there is a request is up to the headers of the call, not to its URL. -/
theorem preparedRequest_cases {call : CallInputs} {url : U.Url}
    (hu : requestUrl U call = .ok url) :
    (∃ e, buildPerCallHeaders H call.requestHeaders call.idempotencyKey
          call.operatorHasIdempotencyKey = .error e ∧
        preparedRequest U H profile call = .error e) ∨
      ∃ headers req, buildPerCallHeaders H call.requestHeaders call.idempotencyKey
          call.operatorHasIdempotencyKey = .ok headers ∧
        preparedRequest U H profile call = .ok req := by
  unfold preparedRequest
  rw [hu]
  simp only [bind, Except.bind]
  cases buildPerCallHeaders H call.requestHeaders call.idempotencyKey
    call.operatorHasIdempotencyKey with
  | error e => exact Or.inl ⟨e, rfl, rfl⟩
  | ok headers => exact Or.inr ⟨headers, _, rfl, rfl⟩

/-- A received body is the world's, its failure put on the URL. -/
theorem received_bodyFor {Url : Type} (w : World) (url : Url) :
    received (w.bodyFor url) = (received w.body).mapError (·.on url) := by
  unfold World.bodyFor
  induction w.body with
  | nil => rfl
  | cons item body ih =>
    cases item with
    | error f => rfl
    | ok chunk =>
      rw [List.map_cons]
      show (received _).map _ = _
      rw [ih, received]
      cases received body with
      | error f => rfl
      | ok chunks => rfl

theorem progressCounts_bodyFor {Url : Type} (w : World) (url : Url) (limit seen : Nat) :
    progressCounts limit seen (w.bodyFor url) = progressCounts limit seen w.body := by
  unfold World.bodyFor
  induction w.body generalizing seen with
  | nil => rfl
  | cons item body ih =>
    cases item with
    | error f => rfl
    | ok chunk =>
      show min _ _ :: progressCounts _ _ _ = min _ _ :: progressCounts _ _ _
      rw [ih]

/-! ## The error texts of one call -/

theorem started_eq (call : CallInputs) (w : World) :
    started U H R profile call w =
      (preparedRequest U H profile call).bind fun req => streamingAnswer U H R (w.answerTo req.url) := by
  unfold started
  rw [startHttpCallStreaming_eq]
  cases preparedRequest U H profile call with
  | error e => rfl
  | ok req => rfl

theorem executed_eq (call : CallInputs) (w : World) (elapsed : Nat) :
    executed U H R profile call w elapsed =
      (preparedRequest U H profile call).bind
        fun req => bufferedAnswer U H R profile (w.answerTo req.url) elapsed := by
  unfold executed
  rw [executeHttpCall_eq]
  cases preparedRequest U H profile call with
  | error e => rfl
  | ok req => rfl

/-- A failure to send is reported without its URL. -/
theorem errorOf_streamingAnswer (w : World) (url url' : U.Url) :
    errorOf (streamingAnswer U H R (w.answerTo url)) =
      errorOf (streamingAnswer U H R (w.answerTo url')) := by
  unfold World.answerTo
  cases w.send with
  | error f => rfl
  | ok resp => rfl

theorem errorOf_readResponseWithLimit (w : World) (url url' : U.Url) (limit : Nat) :
    errorOf (readResponseWithLimit R (w.bodyFor url) limit) =
      errorOf (readResponseWithLimit R (w.bodyFor url') limit) := by
  have hread := fun url => readLoop_eq R limit (w.bodyFor url) [] false
  simp only [List.take_nil, received_bodyFor] at hread
  unfold readResponseWithLimit
  rw [hread url, hread url']
  cases received w.body with
  | ok chunks => rfl
  | error f => rfl

/-- A failed body read of the buffered call is reported without its URL. -/
theorem errorOf_bufferedAnswer (w : World) (url url' : U.Url) (elapsed : Nat) :
    errorOf (bufferedAnswer U H R profile (w.answerTo url) elapsed) =
      errorOf (bufferedAnswer U H R profile (w.answerTo url') elapsed) := by
  unfold World.answerTo
  cases w.send with
  | error f => rfl
  | ok resp =>
    have hread := errorOf_readResponseWithLimit R w url url' profile.maxResponseBytes
    unfold bufferedAnswer readBodyWithLimit
    simp only [Except.mapError, bind, Except.bind]
    revert hread
    cases readResponseWithLimit R (w.bodyFor url) profile.maxResponseBytes with
    | error e =>
      cases readResponseWithLimit R (w.bodyFor url') profile.maxResponseBytes with
      | error e' => exact fun h => h
      | ok r' => exact fun h => by cases h
    | ok r =>
      cases readResponseWithLimit R (w.bodyFor url') profile.maxResponseBytes with
      | error e' => exact fun h => by cases h
      | ok r' => exact fun _ => rfl

theorem errorOf_lastItem (w : World) (url : U.Url) (limit : Nat) :
    errorOf (lastItem R limit (w.bodyFor url) [] false) =
      match received w.body with
      | .ok _ => none
      | .error f => some s!"HTTP body read failed: {R.display (f.on url)}" := by
  unfold lastItem
  rw [received_bodyFor]
  cases received w.body with
  | ok chunks => rfl
  | error f => rfl

/-- What the streaming reader reports of a failure shows exactly the printed URL. -/
theorem display_on_iff (hprint : PrintsUrl U R) (f : Failure) (url url' : U.Url) :
    R.display (f.on url) = R.display (f.on url') ↔
      (f.carriesUrl = true → U.asStr url = U.asStr url') := by
  unfold Failure.on
  by_cases hc : f.carriesUrl = true
  · obtain ⟨before, after, hd⟩ := hprint f.detail
    rw [if_pos hc, if_pos hc, hd, hd]
    constructor
    · intro h _
      rw [String.append_left_inj, String.append_right_inj] at h
      exact h
    · intro h
      rw [h hc]
  · rw [if_neg hc, if_neg hc]
    exact ⟨fun _ h => absurd h hc, fun _ => rfl⟩

/-- The two streams' texts are those of their progress items, which have none, and
of their last item. -/
theorem streamErrors_iff (w : World) (url url' : U.Url) (limit : Nat) :
    (∀ items items', Drains (streamStep R) (readBodyStreaming (w.bodyFor url) limit) items →
      Drains (streamStep R) (readBodyStreaming (w.bodyFor url') limit) items' →
      items.map errorOf = items'.map errorOf) ↔
    ∀ f, received w.body = .error f → R.display (f.on url) = R.display (f.on url') := by
  have hdrain := fun url => streamStep_drains R limit (w.bodyFor url) [] false
  simp only [List.take_nil, progressCounts_bodyFor] at hdrain
  have hlast : (∀ f, received w.body = .error f → R.display (f.on url) = R.display (f.on url')) ↔
      errorOf (lastItem R limit (w.bodyFor url) [] false) =
        errorOf (lastItem R limit (w.bodyFor url') [] false) := by
    rw [errorOf_lastItem, errorOf_lastItem]
    cases received w.body with
    | ok chunks => simp
    | error f =>
      simp only [Except.error.injEq, forall_eq', Option.some.injEq, String.append_right_inj]
      exact Iff.rfl
  rw [hlast]
  constructor
  · intro h
    have heq := h _ _ (hdrain url) (hdrain url')
    rw [List.map_append, List.map_append, List.append_right_inj] at heq
    exact List.singleton_inj.1 heq
  · intro h items items' hitems hitems'
    rw [hitems.unique (hdrain url), hitems'.unique (hdrain url'), List.map_append, List.map_append]
    congr 1
    exact congrArg (fun e => [e]) h

/-! ## Two resolved URLs -/

/-- The calls differ in the resolved URL, and both URLs parse: they fail alike
before sending, or both send a request. -/
theorem prepared_both {call : CallInputs} {u₁ u₂ : String} {parsed₁ parsed₂ : U.Url}
    (hu₁ : U.parse u₁ = .ok parsed₁) (hu₂ : U.parse u₂ = .ok parsed₂) :
    (∃ e, preparedRequest U H profile { call with resolvedUrl := u₁ } = .error e ∧
        preparedRequest U H profile { call with resolvedUrl := u₂ } = .error e) ∨
      ∃ req₁ req₂, preparedRequest U H profile { call with resolvedUrl := u₁ } = .ok req₁ ∧
        preparedRequest U H profile { call with resolvedUrl := u₂ } = .ok req₂ := by
  obtain ⟨url₁, h₁⟩ := requestUrl_ok { call with resolvedUrl := u₁ } hu₁
  obtain ⟨url₂, h₂⟩ := requestUrl_ok { call with resolvedUrl := u₂ } hu₂
  rcases preparedRequest_cases H profile h₁ with ⟨e, hb₁, hp₁⟩ | ⟨headers, req₁, hb₁, hp₁⟩
  · rcases preparedRequest_cases H profile h₂ with ⟨e', hb₂, hp₂⟩ | ⟨headers, -, hb₂, -⟩
    · have he : e = e' := Except.error.inj (hb₁.symm.trans hb₂)
      subst he
      exact Or.inl ⟨e, hp₁, hp₂⟩
    · cases hb₁.symm.trans hb₂
  · rcases preparedRequest_cases H profile h₂ with ⟨e', hb₂, -⟩ | ⟨-, req₂, -, hp₂⟩
    · cases hb₁.symm.trans hb₂
    · exact Or.inr ⟨req₁, req₂, hp₁, hp₂⟩

/-- Before anything is sent the URL plays no part. -/
theorem sameErrorStrings_unsent {call₁ call₂ : CallInputs} (w : World) {e : String}
    (hp₁ : preparedRequest U H profile call₁ = .error e)
    (hp₂ : preparedRequest U H profile call₂ = .error e) :
    SameErrorStrings U H R profile call₁ call₂ w := by
  have hs₁ : started U H R profile call₁ w = .error e := by
    rw [started_eq, hp₁]
    rfl
  refine ⟨?_, ?_, ?_, ?_⟩
  · intro elapsed
    rw [executed_eq, executed_eq, hp₁, hp₂]
  · rw [started_eq, started_eq, hp₁, hp₂]
  · intro r₁ r₂ hr₁
    rw [hs₁] at hr₁
    cases hr₁
  · intro r₁ r₂ hr₁
    rw [hs₁] at hr₁
    cases hr₁

/-- A handle's body is the world's body for the URL that was requested. -/
theorem started_response {call : CallInputs} {w : World} {req : Request U.Url}
    (hp : preparedRequest U H profile call = .ok req) {handle : HttpStreamHandle U.Url}
    (h : started U H R profile call w = .ok handle) :
    (∃ resp, w.send = .ok resp) ∧ handle.response = w.bodyFor req.url := by
  rw [started_eq, hp] at h
  unfold World.answerTo at h
  cases hw : w.send with
  | error f =>
    rw [hw] at h
    cases h
  | ok resp =>
    rw [hw] at h
    cases h
    exact ⟨⟨resp, rfl⟩, rfl⟩

theorem started_ok {call : CallInputs} {w : World} {req : Request U.Url}
    (hp : preparedRequest U H profile call = .ok req) (hw : ∃ resp, w.send = .ok resp) :
    ∃ handle, started U H R profile call w = .ok handle ∧
      handle.response = w.bodyFor req.url := by
  obtain ⟨resp, hw⟩ := hw
  rw [started_eq, hp]
  unfold World.answerTo
  rw [hw]
  exact ⟨_, rfl, rfl⟩

/-- After sending, everything is stripped but the streaming reader's failure. -/
theorem sameErrorStrings_sent {call₁ call₂ : CallInputs} (w : World) {req₁ req₂ : Request U.Url}
    (hp₁ : preparedRequest U H profile call₁ = .ok req₁)
    (hp₂ : preparedRequest U H profile call₂ = .ok req₂) :
    SameErrorStrings U H R profile call₁ call₂ w ↔
      ((∃ resp, w.send = .ok resp) → ∀ f, received w.body = .error f →
        R.display (f.on req₁.url) = R.display (f.on req₂.url)) := by
  have hstream := fun limit => streamErrors_iff R w req₁.url req₂.url limit
  constructor
  · intro hsame hw f hf
    obtain ⟨r₁, hr₁, hb₁⟩ := started_ok H R profile hp₁ hw
    obtain ⟨r₂, hr₂, hb₂⟩ := started_ok H R profile hp₂ hw
    have hread := hsame.readBody r₁ r₂ hr₁ hr₂ 0
    rw [hb₁, hb₂] at hread
    exact (hstream 0).1 hread f hf
  · intro hcond
    refine ⟨?_, ?_, ?_, ?_⟩
    · intro elapsed
      rw [executed_eq, executed_eq, hp₁, hp₂]
      exact errorOf_bufferedAnswer H R profile w req₁.url req₂.url elapsed
    · rw [started_eq, started_eq, hp₁, hp₂]
      exact errorOf_streamingAnswer H R w req₁.url req₂.url
    · intro r₁ r₂ hr₁ hr₂ limit
      rw [(started_response H R profile hp₁ hr₁).2, (started_response H R profile hp₂ hr₂).2]
      exact errorOf_readResponseWithLimit R w req₁.url req₂.url limit
    · intro r₁ r₂ hr₁ hr₂ limit
      obtain ⟨hw, hb₁⟩ := started_response H R profile hp₁ hr₁
      rw [hb₁, (started_response H R profile hp₂ hr₂).2]
      exact (hstream limit).2 (hcond hw)

/-- Were a body failure to carry the URL, the streaming reader would print it. -/
theorem sameErrorStrings_iff (hprint : PrintsUrl U R) (call : CallInputs) (w : World)
    {u₁ u₂ : String} {req₁ req₂ : Request U.Url}
    (hp₁ : preparedRequest U H profile { call with resolvedUrl := u₁ } = .ok req₁)
    (hp₂ : preparedRequest U H profile { call with resolvedUrl := u₂ } = .ok req₂) :
    SameErrorStrings U H R profile { call with resolvedUrl := u₁ } { call with resolvedUrl := u₂ }
        w ↔
      ((∃ resp, w.send = .ok resp) → ∀ f, received w.body = .error f → f.carriesUrl = true →
        U.asStr req₁.url = U.asStr req₂.url) := by
  rw [sameErrorStrings_sent H R profile w hp₁ hp₂]
  constructor
  · intro h hw f hf
    exact (display_on_iff R hprint f _ _).1 (h hw f hf)
  · intro h hw f hf
    exact (display_on_iff R hprint f _ _).2 (h hw f hf)

/-- What is reported of a failed body is one of its items. -/
theorem received_error_mem {ε : Type} {body : List (Except ε Bytes)} {f : ε}
    (h : received body = .error f) : Except.error f ∈ body := by
  induction body with
  | nil => cases h
  | cons item body ih =>
    cases item with
    | error e =>
      cases h
      exact List.mem_cons_self
    | ok chunk =>
      apply List.mem_cons_of_mem
      apply ih
      rw [received] at h
      cases hrest : received body with
      | error e =>
        rw [hrest] at h
        cases h
        rfl
      | ok chunks =>
        rw [hrest] at h
        cases h

/-- **No error text depends on the resolved URL.** -/
theorem sameErrorStrings (call : CallInputs) (w : World) (hbody : BodyWithoutUrl w)
    {u₁ u₂ : String} {parsed₁ parsed₂ : U.Url} (hu₁ : U.parse u₁ = .ok parsed₁)
    (hu₂ : U.parse u₂ = .ok parsed₂) :
    SameErrorStrings U H R profile { call with resolvedUrl := u₁ } { call with resolvedUrl := u₂ }
      w := by
  rcases prepared_both H profile hu₁ hu₂ with ⟨e, hp₁, hp₂⟩ | ⟨req₁, req₂, hp₁, hp₂⟩
  · exact sameErrorStrings_unsent H R profile w hp₁ hp₂
  · refine (sameErrorStrings_sent H R profile w hp₁ hp₂).2 ?_
    intro _ f hf
    have hplain := hbody f (received_error_mem hf)
    unfold Failure.on
    rw [hplain]
    rfl

/-! ## Two secrets in a URL -/

def probeProfile : HttpRequestProfile :=
  ⟨"https://h.test/hook", .get, true, 16, .fromSecs 30, false⟩

def probeCall (resolvedUrl : String) : CallInputs :=
  ⟨.queryString, .null, some "q=1", [], none, false, resolvedUrl⟩

/-- One chunk arrives, then the connection breaks. -/
def brokenBody : World :=
  ⟨.ok (200, []), [.ok [0x5B], .error ⟨"error decoding response body", false⟩]⟩

/-- The failure to send carries the URL. -/
def refusedConnection : World := ⟨.error ⟨"error sending request", true⟩, []⟩

theorem sameErrorStrings_twoSecrets :
    SameErrorStrings plainUrlApi plainHeaderApi plainReqwestApi probeProfile
        (probeCall "https://u:a@h.test/hook?token=a") (probeCall "https://u:b@h.test/hook?token=b")
        brokenBody ∧
      SameErrorStrings plainUrlApi plainHeaderApi plainReqwestApi probeProfile
        (probeCall "https://u:a@h.test/hook?token=a") (probeCall "https://u:b@h.test/hook?token=b")
        refusedConnection := by
  have ha : PlainUrl.parse "https://u:a@h.test/hook?token=a" =
      .ok ⟨some "u:a", "h.test", "/hook", some "token=a"⟩ := by decide
  have hb : PlainUrl.parse "https://u:b@h.test/hook?token=b" =
      .ok ⟨some "u:b", "h.test", "/hook", some "token=b"⟩ := by decide
  constructor
  · refine sameErrorStrings (U := plainUrlApi) plainHeaderApi plainReqwestApi probeProfile
      (probeCall "") brokenBody ?_ ha hb
    intro f hf
    simp only [brokenBody, List.mem_cons, reduceCtorEq, Except.error.injEq, List.not_mem_nil,
      or_false, false_or] at hf
    rw [hf]
  · refine sameErrorStrings (U := plainUrlApi) plainHeaderApi plainReqwestApi probeProfile
      (probeCall "") refusedConnection ?_ ha hb
    intro f hf
    cases hf

end NetCore
