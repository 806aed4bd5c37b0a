import NetCore.Isolation
import NetCore.RegistryLive
import NetCore.Streaming

/-!
# The address a client is pinned to

The address policy runs when a client is built; a call that finds the client in
the map runs none.  But the digest covers the URL, so the client was built for
the host of the call's own URL (`run_pinned`), merging a query and taking userinfo
out keep that host (`requestUrl_host`, `preparedRequest_host`), and a build the
policy refuses leaves nothing behind (`run_refused`).  Together:
`resolved_clients_pinned`.
-/

namespace NetCore

open StepSystem

variable {U : UrlApi} {H : HeaderApi} {S : SecurityApi} {X : ExprApi} {D : Type} [DecidableEq D]
  {hash : ByteArray → D} {rt : NetworkProfileRuntime X} {hist : List (RuntimeStep X D S.Ip)}
  {s : RuntimeState D S.Ip}

/-! ## The request -/

/-- `set_query` leaves the host alone. -/
def QueryKeepsHost (U : UrlApi) : Prop :=
  ∀ url query, U.hostStr (U.setQuery url query) = U.hostStr url

theorem withQueryString_host (hq : QueryKeepsHost U) {url url' : U.Url} {query : String}
    (h : withQueryString U url query = .ok url') : U.hostStr url' = U.hostStr url := by
  unfold withQueryString at h
  split at h
  · cases h
    rfl
  · cases h
    exact hq _ _

/-- The requested URL has the host of the resolved one. -/
theorem requestUrl_host (hq : QueryKeepsHost U) {inputs : CallInputs} {url : U.Url}
    (h : requestUrl U inputs = .ok url) : U.hostStr url = hostOf U inputs.resolvedUrl := by
  unfold requestUrl at h
  obtain ⟨parsed, hparsed, h⟩ := bind_ok h
  unfold hostOf
  rw [mapError_ok hparsed]
  cases hquery : inputs.requestQuery with
  | none =>
    rw [hquery] at h
    cases h
    rfl
  | some query =>
    rw [hquery] at h
    exact withQueryString_host hq h

/-- A request that is for `host`, by either way of calling. -/
def RequestsHost (U : UrlApi) (H : HeaderApi) (R : ReqwestApi U.Url) (profile : HttpRequestProfile)
    (inputs : CallInputs) (host : String) : Prop :=
  (∀ sent, executeHttpCall U H R profile inputs = .ok sent →
    U.hostStr sent.request.url = some host) ∧
  (∀ sent, startHttpCallStreaming U H R profile inputs = .ok sent →
    U.hostStr sent.request.url = some host)

theorem requestsHost (hq : QueryKeepsHost U) (R : ReqwestApi U.Url) (profile : HttpRequestProfile)
    {inputs : CallInputs} {host : String} (hhost : hostOf U inputs.resolvedUrl = some host) :
    RequestsHost U H R profile inputs host := by
  have hprepared : ∀ req, preparedRequest U H profile inputs = .ok req →
      U.hostStr req.url = some host := by
    intro req hreq
    obtain ⟨url, hurl, hsame⟩ := preparedRequest_host H profile hreq
    rw [hsame, requestUrl_host hq hurl, hhost]
  constructor
  · intro sent hsent
    exact hprepared _ (executeHttpCall_sent H R profile hsent).1
  · intro sent hsent
    exact hprepared _ (startHttpCallStreaming_sent H R profile hsent).1

/-! ## The client -/

/-- The client is pinned, for `host`, to the first address the check accepts of
those its own build was answered with. -/
def PinnedIn (hist : List (RuntimeStep X D S.Ip)) (allowPrivate : Bool) (host : String)
    (client : Arc (Client S.Ip)) : Prop :=
  ∃ st ∈ hist, ∃ answer addrs addr, st.label = .finish client.ptr answer ∧
    answer.lookupHost = some addrs ∧ firstAccepted S host allowPrivate addrs = some addr ∧
    client.val.resolve = (host, addr)

omit [DecidableEq D] in
theorem BuiltFrom.pinned {profile : HttpRequestProfile} {url : String}
    {headers : SortedMap String String} {client : Arc (Client S.Ip)}
    (h : BuiltFrom U H S profile hist url headers client) :
    ∃ host, hostOf U url = some host ∧ PinnedIn hist profile.allowPrivateBackends host client := by
  obtain ⟨st, hst, answer, hlabel, hbuild⟩ := h
  obtain ⟨host, addrs, addr, hhost, haddrs, haddr, hpin⟩ := buildHttpClient_ok hbuild
  exact ⟨host, hhost, st, hst, answer, addrs, addr, hlabel, haddrs, haddr, hpin⟩

omit [DecidableEq D] in
theorem PinnedIn.public {host : String} {client : Arc (Client S.Ip)}
    (h : PinnedIn hist false host client) : S.isPrivateAddress client.val.resolve.2.ip = false := by
  obtain ⟨st, -, answer, addrs, addr, -, -, haddr, hpin⟩ := h
  rw [hpin]
  exact (firstAccepted_public haddr).2

/-- The client `resolve_client` returns is pinned for the host of the URL it returns. -/
theorem run_pinned (hv : NoLineFeed X) (h : (runtimeMachine U H S hash rt).Run hist s)
    (hh : Set.InjOn hash s.hashed) {i : CallId} {call : ResolvedCall S.Ip}
    (hret : s.resolveClientResult i = some (.ok call)) :
    ∃ host, hostOf U call.resolvedUrl = some host ∧
      PinnedIn hist rt.profile.allowPrivateBackends host call.client := by
  obtain ⟨digest, credKeys, b, hc, hb, hurl, -⟩ := RuntimeState.resolveClientResult_ok hret
  rw [hurl]
  exact (run_returned_builtFrom hv h hh hc hb).pinned

/-! ## Refused builds -/

/-- None of the addresses the build was answered with is accepted for the host of
the bundle. -/
def Refused (U : UrlApi) (S : SecurityApi) (allowPrivate : Bool) (b : Bundle)
    (answer : BuildAnswer S.Ip) : Prop :=
  ∀ host addrs, hostOf U b.url = some host → answer.lookupHost = some addrs →
    ∀ a ∈ addrs, validateResolvedAddress S a host allowPrivate ≠ .ok ()

/-- A refused build fails, and nothing of it is ever cached. -/
theorem run_refused (h : (runtimeMachine U H S hash rt).Run hist s) {st : RuntimeStep X D S.Ip}
    (hst : st ∈ hist) {i : CallId} {answer : BuildAnswer S.Ip} (hl : st.label = .finish i answer)
    {kb : CallKind × Bundle} (hi : s.bundles i = some kb)
    (hr : Refused U S rt.profile.allowPrivateBackends kb.2 answer) :
    (∃ e, buildHttpClient U H S rt.profile kb.2.url kb.2.headers answer = .error e) ∧
      st.post.registry.clients = st.pre.registry.clients ∧
      ∀ digest e, s.registry.clients.lookup digest = some e → e.client.ptr ≠ i := by
  obtain ⟨e, he⟩ : ∃ e, buildHttpClient U H S rt.profile kb.2.url kb.2.headers answer =
      .error e := by
    apply buildHttpClient_refuses
    intro host addrs hhost haddrs
    unfold firstAccepted
    rw [List.find?_eq_none]
    intro a ha hok
    cases hv : validateResolvedAddress S a host rt.profile.allowPrivateBackends with
    | ok u => exact hr host addrs hhost haddrs a ha hv
    | error e => rw [hv] at hok; cases hok
  obtain ⟨rst, hrst, hpre, hpost, hlabel⟩ := run_finish h hst hl hi
  rw [he] at hlabel
  have hrun := run_registry h
  have hfails : Fails i rst := Or.inl ⟨e, hlabel⟩
  refine ⟨⟨e, he⟩, ?_, ?_⟩
  · rw [← hpre, ← hpost]
    apply run_failed_untouched hrun hrst hfails hrst
    rw [hlabel]
    rfl
  · intro digest entry hentry
    exact run_failed_uncached hrun hrst hfails hentry

/-! ## Pinning -/

/-- **Resolved clients are pinned.**  In every run, the client of a resolved call
is pinned for the host of the resolved URL to the first accepted address of its
own build's answer, never a private one unless these are allowed; the request
sent with it is for that host; and a build without an accepted address fails
and leaves nothing in the map. -/
theorem resolved_clients_pinned (hv : NoLineFeed X) (hq : QueryKeepsHost U)
    (h : (runtimeMachine U H S hash rt).Run hist s) (hh : Set.InjOn hash s.hashed) :
    (∀ i call, s.resolveClientResult i = some (.ok call) →
      ∃ host, hostOf U call.resolvedUrl = some host ∧
        PinnedIn hist rt.profile.allowPrivateBackends host call.client ∧
        (rt.profile.allowPrivateBackends = false →
          S.isPrivateAddress call.client.val.resolve.2.ip = false) ∧
        ∀ R inputs, inputs.resolvedUrl = call.resolvedUrl →
          RequestsHost U H R rt.profile inputs host) ∧
    (∀ st ∈ hist, ∀ i answer, st.label = .finish i answer → ∃ kind b,
      s.bundles i = some (kind, b) ∧ (Refused U S rt.profile.allowPrivateBackends b answer →
        (∃ e, buildHttpClient U H S rt.profile b.url b.headers answer = .error e) ∧
        st.post.registry.clients = st.pre.registry.clients ∧
        ∀ digest e, s.registry.clients.lookup digest = some e → e.client.ptr ≠ i)) := by
  refine ⟨?_, ?_⟩
  · intro i call hret
    obtain ⟨host, hhost, hpin⟩ := run_pinned hv h hh hret
    refine ⟨host, hhost, hpin, ?_, ?_⟩
    · intro hallow
      rw [hallow] at hpin
      exact hpin.public
    · intro R inputs hinputs
      exact requestsHost hq R rt.profile (by rw [hinputs, hhost])
  · intro st hst i answer hl
    obtain ⟨⟨kind, b⟩, -, hi⟩ := (run_bundled h).finished hst hl
    exact ⟨kind, b, hi, run_refused h hst hl hi⟩

/-- Two callers share a client, pinned past the private address. -/
def sharedClient : List (RuntimeAction plainExprApi Bytes Ipv4) :=
  [.resolveClient 0 () (bearerAnswer "t1") 0, .invoke 0, .finish 0 mixedAnswer,
    .insert 0 6 (.stored _ _), .resolveClient 1 () (bearerAnswer "t1") 9]

theorem resolved_clients_pinned_sharedClient :
    ∃ c call host, bearerMachine.exec sharedClient ([], bearerMachine.init) = some c ∧
      c.2.resolveClientResult 1 = some (.ok call) ∧
      hostOf plainUrlApi call.resolvedUrl = some host ∧
      PinnedIn (S := plainSecurityApi) c.1 false host call.client ∧
      ∀ inputs, inputs.resolvedUrl = call.resolvedUrl →
        RequestsHost plainUrlApi plainHeaderApi plainReqwestApi bearerRuntime.profile inputs
          host := by
  obtain ⟨c, call, hc, hcall⟩ :
      ∃ c call, bearerMachine.exec sharedClient ([], bearerMachine.init) = some c ∧
        c.2.resolveClientResult 1 = some (.ok call) := ⟨_, _, rfl, rfl⟩
  have hq : QueryKeepsHost plainUrlApi := fun url query => rfl
  have h := resolved_clients_pinned plain_noLineFeed hq (Machine.exec_init hc) (plainHash_injOn _)
  obtain ⟨host, hhost, hpin, -, hrequest⟩ := h.1 1 call hcall
  exact ⟨c, call, host, hc, hcall, hhost, hpin, hrequest plainReqwestApi⟩

end NetCore
