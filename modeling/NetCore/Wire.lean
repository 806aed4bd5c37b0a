import NetCore.Isolation
import NetCore.Outbound

/-!
# What a call puts on the wire

A tool call resolves its templates, takes a client from the shared map, and sends
a request to which the client adds the headers it was built with.  However the
client came to be in the map, the request is the one of a call that shares nothing
(`cached_request_eq`).  So it is a function of the call alone: of its expression
context, its inputs, and what the host answered for the references the profile
holds.  Nothing else the host returned, and no other call, shows in it
(`wire_noninterference`).
-/

namespace NetCore

open StepSystem

variable {U : UrlApi} {H : HeaderApi} {R : ReqwestApi U.Url} {S : SecurityApi} {X : ExprApi}

/-- The request as it leaves the client. -/
def onWire {Url : Type} (defaults : HeaderMap) (req : Request Url) : Request Url :=
  { req with headers := outboundHeaders defaults req }

/-- A call, resolved to `call`, sends `wire` for these inputs, by either way of calling. -/
def SentBy (U : UrlApi) (H : HeaderApi) (R : ReqwestApi U.Url) (profile : HttpRequestProfile)
    {Ip : Type} (call : ResolvedCall Ip) (inputs : CallInputs) (wire : Request U.Url) : Prop :=
  ∃ req, Sends U H R profile { inputs with resolvedUrl := call.resolvedUrl } req ∧
    wire = onWire call.client.val.defaultHeaders req

/-- The request of a call that shares nothing: from its templates and the host's answer
straight to the wire. -/
def uncachedRequest (U : UrlApi) (H : HeaderApi) (rt : NetworkProfileRuntime X)
    (exprCtx : X.ExprContext) (answer : Except BackendHostError Value) (inputs : CallInputs) :
    Except String (Request U.Url) := do
  let b ← resolveBundle rt exprCtx answer
  let defaults ← buildDefaultHeaders H b.headers (rt.profile.method = .post)
  let req ← preparedRequest U H rt.profile { inputs with resolvedUrl := b.url }
  return onWire defaults req

/-! ## One bundle -/

/-- What a template is filled with: the values of its own references. -/
def FillsOwnRefs (X : ExprApi) : Prop :=
  ∀ template exprCtx lookup lookup', (∀ uri ∈ X.credRefs template, lookup uri = lookup' uri) →
    X.resolveWithCredentials template exprCtx lookup =
      X.resolveWithCredentials template exprCtx lookup'

/-- Two answers of the host are alike in what the profile asked for, if it asks at all:
the same string, or none, for each reference, or the same error. -/
def SameCredentials (rt : NetworkProfileRuntime X) (answer answer' : Except BackendHostError Value) :
    Prop :=
  rt.credUris ≠ [] →
    match answer, answer' with
    | .ok snapshot, .ok snapshot' =>
      ∀ uri ∈ rt.credUris, credMapOf snapshot uri = credMapOf snapshot' uri
    | .error e, .error e' => e.text = e'.text
    | _, _ => False

theorem credUris_url (rt : NetworkProfileRuntime X) {uri : String}
    (h : uri ∈ X.credRefs rt.compiledUrl) : uri ∈ rt.credUris :=
  List.mem_append_left _ h

theorem credUris_header (rt : NetworkProfileRuntime X) {name : String} {template : X.DynamicValue}
    (hm : (name, template) ∈ rt.compiledHeaders.entries) {uri : String}
    (h : uri ∈ X.credRefs template) : uri ∈ rt.credUris := by
  apply List.mem_append_right
  rw [List.mem_flatMap]
  exact ⟨template, List.mem_map.2 ⟨_, hm, rfl⟩, h⟩

/-- The rest of `resolve_client` once it has the credentials. -/
def fillTemplates (rt : NetworkProfileRuntime X) (exprCtx : X.ExprContext)
    (credMap : String → Option String) : Except String Bundle := do
  let resolvedUrl ← (X.resolveWithCredentials rt.compiledUrl exprCtx credMap).mapError
    fun e => s!"evaluating URL expression: {e}"
  let resolvedHeaders ← rt.compiledHeaders.traverse fun name expr => do
    let value ← (X.resolveWithCredentials expr exprCtx credMap).mapError
      fun e => s!"evaluating header '{name}' expression: {e}"
    let _ ← (X.validateHeaderValue name value).mapError fun e => s!"header '{name}': {e}"
    return value
  return ⟨resolvedUrl, resolvedHeaders, rt.credKeys⟩

theorem resolveBundle_eq (rt : NetworkProfileRuntime X) (exprCtx : X.ExprContext)
    (answer : Except BackendHostError Value) :
    resolveBundle rt exprCtx answer = credentialMap rt answer >>= fillTemplates rt exprCtx := rfl

theorem fillTemplates_congr (hfill : FillsOwnRefs X) (rt : NetworkProfileRuntime X)
    (exprCtx : X.ExprContext) {lookup lookup' : String → Option String}
    (h : ∀ uri ∈ rt.credUris, lookup uri = lookup' uri) :
    fillTemplates rt exprCtx lookup = fillTemplates rt exprCtx lookup' := by
  have hurl := hfill rt.compiledUrl exprCtx lookup lookup' fun uri hm => h uri (credUris_url rt hm)
  unfold fillTemplates
  rw [hurl]
  congr 1
  funext resolvedUrl
  congr 1
  apply SortedMap.traverse_congr
  rintro ⟨name, template⟩ hm
  have hheader := hfill template exprCtx lookup lookup' fun uri hu => h uri (credUris_header rt hm hu)
  simp only [hheader]

/-- **What the profile did not ask for does not count.** -/
theorem resolveBundle_congr (hfill : FillsOwnRefs X) {rt : NetworkProfileRuntime X}
    {answer answer' : Except BackendHostError Value} (h : SameCredentials rt answer answer')
    (exprCtx : X.ExprContext) :
    resolveBundle rt exprCtx answer = resolveBundle rt exprCtx answer' := by
  rw [resolveBundle_eq, resolveBundle_eq]
  unfold credentialMap
  by_cases hrefs : rt.credUris = []
  · rw [if_pos hrefs, if_pos hrefs]
  · rw [if_neg hrefs, if_neg hrefs]
    have hsame := h hrefs
    cases answer with
    | ok snapshot =>
      cases answer' with
      | ok snapshot' => exact fillTemplates_congr hfill rt exprCtx hsame
      | error e => exact absurd hsame id
    | error e =>
      cases answer' with
      | ok snapshot' => exact absurd hsame id
      | error e' =>
        show Except.error e.text = Except.error e'.text
        rw [hsame]

/-! ## In a run -/

variable {D : Type} [DecidableEq D] {hash : ByteArray → D} {rt : NetworkProfileRuntime X}
  {hist hist' : List (RuntimeStep X D S.Ip)} {s s' : RuntimeState D S.Ip}

/-- Call `i` resolved its templates in this run, from this context and this answer. -/
def Resolves (hist : List (RuntimeStep X D S.Ip)) (i : CallId) (exprCtx : X.ExprContext)
    (answer : Except BackendHostError Value) : Prop :=
  ∃ st ∈ hist, ∃ elapsed o, st.label = .resolveClient i exprCtx answer elapsed ∧
    st.out = .registry o

/-- The bundle it resolved to is the one recorded for it. -/
theorem run_resolves (h : (runtimeMachine U H S hash rt).Run hist s) {i : CallId}
    {exprCtx : X.ExprContext} {answer : Except BackendHostError Value}
    (hi : Resolves hist i exprCtx answer) :
    ∃ b, resolveBundle rt exprCtx answer = .ok b ∧ s.bundles i = some (.resolveClient, b) := by
  obtain ⟨st, hm, elapsed, o, hl, ho⟩ := hi
  obtain ⟨newer, older, rfl⟩ := List.append_of_mem hm
  have hn := h.split.2
  rw [hl] at hn
  rcases runtimeNext_cases hn with ⟨a, bundles, o', hp, -, hpost, -⟩ | ⟨-, hne⟩
  · simp only [plan] at hp
    cases hb : resolveBundle rt exprCtx answer with
    | error e =>
      rw [hb] at hp
      cases hp
    | ok b =>
      rw [hb] at hp
      cases hp
      refine ⟨b, rfl, h.persist (P := fun s => s.bundles i = some (.resolveClient, b)) ?_ ?_⟩
      · rw [hpost, Function.update_self]
      · intro x hx hnx hpre
        obtain ⟨before, hr, -⟩ := h.of_mem (List.mem_append_left _ hx)
        exact (run_bundled hr).kept hnx hpre
  · exact absurd ho (hne o)

/-- The call sends what it would send without the cache. -/
theorem run_sentBy (hv : NoLineFeed X) (h : (runtimeMachine U H S hash rt).Run hist s)
    (hh : Set.InjOn hash s.hashed) {i : CallId} {exprCtx : X.ExprContext}
    {answer : Except BackendHostError Value} (hi : Resolves hist i exprCtx answer)
    {call : ResolvedCall S.Ip} (hret : s.resolveClientResult i = some (.ok call))
    (R : ReqwestApi U.Url) (inputs : CallInputs) (wire : Request U.Url) :
    SentBy U H R rt.profile call inputs wire ↔
      uncachedRequest U H rt exprCtx answer inputs = .ok wire := by
  obtain ⟨b, hres, hb⟩ := run_resolves h hi
  obtain ⟨digest, credKeys, b', hc, hb', hurl, hheaders⟩ := RuntimeState.resolveClientResult_ok hret
  obtain rfl : b' = b := by
    rw [hb] at hb'
    cases hb'
    rfl
  obtain ⟨st, -, built, -, hbuild⟩ := run_returned_builtFrom hv h hh hc hb
  have hdefaults := buildHttpClient_defaultHeaders hbuild
  unfold SentBy uncachedRequest
  rw [hres]
  simp only [bind, Except.bind, hdefaults, sends_iff, hurl]
  cases hreq : preparedRequest U H rt.profile { inputs with resolvedUrl := b'.url } with
  | error e =>
    constructor
    · rintro ⟨req, hno, -⟩
      cases hno
    · intro hno
      cases hno
  | ok req =>
    constructor
    · rintro ⟨req', hsame, rfl⟩
      cases hsame
      rfl
    · intro hwire
      cases hwire
      exact ⟨req, rfl, rfl⟩

/-- **No call shows in another's request.**  Take any two runs of a profile, and a call in
each that resolved in the same context, with answers of the host that are alike in the
profile's references.  With any inputs both send the same request: the one of a call that
shares nothing. -/
theorem wire_noninterference (hfill : FillsOwnRefs X) (hv : NoLineFeed X)
    (h : (runtimeMachine U H S hash rt).Run hist s)
    (h' : (runtimeMachine U H S hash rt).Run hist' s') (hh : Set.InjOn hash s.hashed)
    (hh' : Set.InjOn hash s'.hashed) {i j : CallId} {exprCtx : X.ExprContext}
    {answer answer' : Except BackendHostError Value} (hi : Resolves hist i exprCtx answer)
    (hj : Resolves hist' j exprCtx answer') (hsame : SameCredentials rt answer answer')
    {call call' : ResolvedCall S.Ip} (hret : s.resolveClientResult i = some (.ok call))
    (hret' : s'.resolveClientResult j = some (.ok call')) (R : ReqwestApi U.Url)
    (inputs : CallInputs) (wire : Request U.Url) :
    (SentBy U H R rt.profile call inputs wire ↔
      uncachedRequest U H rt exprCtx answer inputs = .ok wire) ∧
    (SentBy U H R rt.profile call inputs wire ↔ SentBy U H R rt.profile call' inputs wire) := by
  have hone := run_sentBy hv h hh hi hret R inputs wire
  have hother := run_sentBy hv h' hh' hj hret' R inputs wire
  have halone : uncachedRequest U H rt exprCtx answer inputs =
      uncachedRequest U H rt exprCtx answer' inputs := by
    unfold uncachedRequest
    rw [resolveBundle_congr hfill hsame]
  exact ⟨hone, hone.trans (halone ▸ hother.symm)⟩

/-! ## A shared client and a client of one's own -/

theorem plain_fillsOwnRefs : FillsOwnRefs plainExprApi := by
  intro template _ lookup lookup' hrefs
  show (Piece.renderAll lookup template).map String.ofList =
    (Piece.renderAll lookup' template).map String.ofList
  congr 1
  induction template with
  | nil => rfl
  | cons p ps ih =>
    have hp : p.render lookup = p.render lookup' := by
      cases p with
      | literal text => rfl
      | credential uri =>
        have huri := hrefs uri (by simp [plainExprApi])
        simp only [Piece.render, huri]
    have hps := ih fun uri hm => hrefs uri (by
      obtain ⟨q, hq, hu⟩ := List.mem_filterMap.1 hm
      exact List.mem_filterMap.2 ⟨q, List.mem_cons_of_mem _ hq, hu⟩)
    simp only [Piece.renderAll, hp, hps]

theorem bearerRuntime_credUris : bearerRuntime.credUris = ["cred://oauth/api"] := by decide

/-- The host returns a second credential, which no template holds. -/
def chattyAnswer : Except BackendHostError Value :=
  .ok (.object [("cred://oauth/admin", .string "root"), ("cred://oauth/api", .string "t1")])

/-- One call, alone. -/
def ownClient : List (RuntimeAction plainExprApi Bytes Ipv4) :=
  [.resolveClient 0 () chattyAnswer 0, .invoke 0, .finish 0 mixedAnswer, .insert 0 2 (.stored _ _)]

theorem wire_noninterference_twoTokens :
    ∃ c c' call call', bearerMachine.exec twoTokens ([], bearerMachine.init) = some c ∧
      bearerMachine.exec ownClient ([], bearerMachine.init) = some c' ∧
      c.2.resolveClientResult 3 = some (.ok call) ∧ c'.2.resolveClientResult 0 = some (.ok call') ∧
      ∀ inputs wire,
        SentBy plainUrlApi plainHeaderApi plainReqwestApi bearerRuntime.profile call inputs wire ↔
          SentBy plainUrlApi plainHeaderApi plainReqwestApi bearerRuntime.profile call' inputs
            wire := by
  obtain ⟨c, call, st, o, hc, hcall, hst, hl, ho⟩ :
      ∃ c call st o, bearerMachine.exec twoTokens ([], bearerMachine.init) = some c ∧
        c.2.resolveClientResult 3 = some (.ok call) ∧ c.1[0]? = some st ∧
        st.label = .resolveClient 3 () (bearerAnswer "t1") 9 ∧ st.out = .registry o :=
    ⟨_, _, _, _, rfl, rfl, rfl, rfl, rfl⟩
  obtain ⟨c', call', st', o', hc', hcall', hst', hl', ho'⟩ :
      ∃ c call st o, bearerMachine.exec ownClient ([], bearerMachine.init) = some c ∧
        c.2.resolveClientResult 0 = some (.ok call) ∧ c.1[3]? = some st ∧
        st.label = .resolveClient 0 () chattyAnswer 0 ∧ st.out = .registry o :=
    ⟨_, _, _, _, rfl, rfl, rfl, rfl, rfl⟩
  have hsame : SameCredentials bearerRuntime (bearerAnswer "t1") chattyAnswer := by
    intro _
    show ∀ uri ∈ bearerRuntime.credUris, _
    rw [bearerRuntime_credUris]
    intro uri huri
    rw [List.mem_singleton.1 huri]
    rfl
  exact ⟨c, c', call, call', hc, hc', hcall, hcall', fun inputs wire =>
    (wire_noninterference plain_fillsOwnRefs plain_noLineFeed (Machine.exec_init hc)
      (Machine.exec_init hc') (plainHash_injOn _) (plainHash_injOn _)
      ⟨st, List.mem_of_getElem? hst, 9, o, hl, ho⟩ ⟨st', List.mem_of_getElem? hst', 0, o', hl', ho'⟩
      hsame hcall hcall' plainReqwestApi inputs wire).2⟩

end NetCore
