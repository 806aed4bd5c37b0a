import NetCore.Profile
import NetCore.Wire

/-!
# Whose credentials a call sends

`resolve_client` asks the host for the references of its profile: each once, in
order, as an object that maps the reference to itself, on behalf of the caller of
the request.  The host replaces the values.  What comes of it is what the caller's
own credentials, put straight into the templates, would give
(`askHost_resolves`), also where the client is one that another caller's call
built, with callbacks and sweeper at work (`sent_for_caller`).
-/

namespace NetCore

open StepSystem

/-- The types of `mcpg_plugin_protocol` that `resolve_client` only passes on. -/
structure ProtocolApi where
  RequestId : Type
  SessionId : Type
  Identity : Type

structure BackendRequest (P : ProtocolApi) where
  requestId : P.RequestId
  sessionId : P.SessionId
  identity : Option P.Identity

structure BackendInvocationContext (P : ProtocolApi) where
  requestId : P.RequestId
  sessionId : P.SessionId
  backendName : String
  identity : Option P.Identity

def BackendInvocationContext.root {P : ProtocolApi} (requestId : P.RequestId)
    (sessionId : P.SessionId) (backendName : String) : BackendInvocationContext P :=
  ⟨requestId, sessionId, backendName, none⟩

/-- `resolve_credentials`, with the snapshot as it leaves it. -/
abbrev BackendHost (P : ProtocolApi) : Type :=
  BackendInvocationContext P → Value → Except BackendHostError Value

variable {P : ProtocolApi} {X : ExprApi}

/-- The references as a `BTreeSet` has them. -/
def askedUris (rt : NetworkProfileRuntime X) : List String :=
  dedup (rt.credUris.insertionSort fun a b => a ≤ b)

def snapshotOf (uris : List String) : Value := .object (uris.map fun uri => (uri, .string uri))

/-- What the host makes of the references of the profile. -/
def askHost (host : BackendHost P) (rt : NetworkProfileRuntime X) (request : BackendRequest P)
    (backendName : String) : Except BackendHostError Value :=
  let hostCtx := BackendInvocationContext.root request.requestId request.sessionId backendName
  host { hostCtx with identity := request.identity } (snapshotOf (askedUris rt))

/-! ## The answer -/

/-- A host that answers puts, in the place of each reference, what the caller holds for it. -/
def Substitutes (host : BackendHost P) (vault : Option P.Identity → String → Option String) : Prop :=
  ∀ ctx uris answer, host ctx (snapshotOf uris) = .ok answer →
    ∃ fields, answer = .object fields ∧ fields.map Prod.fst = uris ∧
      ∀ kv ∈ fields, ∃ v, vault ctx.identity kv.1 = some v ∧ kv.2 = .string v

/-- A field whose value is the caller's is found under its name. -/
theorem credMapOf_fields {held : String → Option String} {fields : List (String × Value)}
    (h : ∀ kv ∈ fields, ∃ v, held kv.1 = some v ∧ kv.2 = .string v) {uri : String}
    (hm : uri ∈ fields.map Prod.fst) : credMapOf (.object fields) uri = held uri := by
  induction fields with
  | nil => cases hm
  | cons kv fields ih =>
    obtain ⟨k, value⟩ := kv
    obtain ⟨v, hheld, rfl⟩ := h _ List.mem_cons_self
    by_cases hk : k = uri
    · simp only [credMapOf, List.findSome?_cons, if_pos hk]
      rw [← hk]
      exact hheld.symm
    · have hrest : uri ∈ fields.map Prod.fst := by
        rcases List.mem_cons.1 hm with heq | hrest
        · exact absurd heq.symm hk
        · exact hrest
      have hfound := ih (fun kv hkv => h kv (List.mem_cons_of_mem _ hkv)) hrest
      simp only [credMapOf, List.findSome?_cons, if_neg hk]
      exact hfound

theorem mem_askedUris (rt : NetworkProfileRuntime X) (uri : String) :
    uri ∈ askedUris rt ↔ uri ∈ rt.credUris := by
  rw [askedUris, mem_dedup, List.mem_insertionSort]

variable {host : BackendHost P} {vault : Option P.Identity → String → Option String}

/-- An answer to the ask has the caller's credential for each reference. -/
theorem askHost_credMap (hhost : Substitutes host vault) {rt : NetworkProfileRuntime X}
    {request : BackendRequest P} {backendName : String} {answer : Value}
    (h : askHost host rt request backendName = .ok answer) :
    ∀ uri ∈ rt.credUris, credMapOf answer uri = vault request.identity uri := by
  obtain ⟨fields, rfl, hkeys, hvalues⟩ := hhost _ _ _ h
  intro uri huri
  apply credMapOf_fields hvalues
  rw [hkeys]
  exact (mem_askedUris rt uri).2 huri

/-- **A call resolves to the caller's own credentials**, if it resolves. -/
theorem askHost_resolves (hfill : FillsOwnRefs X) (hhost : Substitutes host vault)
    {rt : NetworkProfileRuntime X} {request : BackendRequest P} {backendName : String}
    {exprCtx : X.ExprContext} {b : Bundle}
    (h : resolveBundle rt exprCtx (askHost host rt request backendName) = .ok b) :
    fillTemplates rt exprCtx (vault request.identity) = .ok b := by
  rw [resolveBundle_eq] at h
  obtain ⟨credMap, hmap, h⟩ := bind_ok h
  rw [← h]
  apply fillTemplates_congr hfill
  unfold credentialMap at hmap
  by_cases hrefs : rt.credUris = []
  · -- the host is not asked
    rw [hrefs]
    exact fun uri hm => absurd hm List.not_mem_nil
  · rw [if_neg hrefs] at hmap
    cases hans : askHost host rt request backendName with
    | error e =>
      rw [hans] at hmap
      cases hmap
    | ok answer =>
      rw [hans] at hmap
      cases hmap
      exact fun uri hm => (askHost_credMap hhost hans uri hm).symm

/-! ## In a run -/

variable {U : UrlApi} {H : HeaderApi} {S : SecurityApi} {D : Type} [DecidableEq D]
  {hash : ByteArray → D} {rt : NetworkProfileRuntime X} {hist : List (ProfileStep X D S.Ip)}
  {s : ProfileState D S.Ip}

/-- The request for a caller who holds these credentials, without host and client. -/
def callerRequest (U : UrlApi) (H : HeaderApi) (rt : NetworkProfileRuntime X)
    (exprCtx : X.ExprContext) (held : String → Option String) (inputs : CallInputs) :
    Except String (Request U.Url) := do
  let b ← fillTemplates rt exprCtx held
  let defaults ← buildDefaultHeaders H b.headers (rt.profile.method = .post)
  let req ← preparedRequest U H rt.profile { inputs with resolvedUrl := b.url }
  return onWire defaults req

/-- **A call sends its own caller's credentials.**  In every run of a profile, with its
background tasks, the request of a call that asked the host is the one its templates give
for what its caller holds: not its request id, session or backend name, not another
caller's credentials and not another call's client show in it. -/
theorem sent_for_caller (hfill : FillsOwnRefs X) (hhost : Substitutes host vault)
    (hv : NoLineFeed X) (h : (profileMachine U H S hash rt).Run hist s)
    (hh : Set.InjOn hash s.runtime.hashed) {i : CallId} {exprCtx : X.ExprContext}
    {request : BackendRequest P} {backendName : String}
    (hi : Resolves (hist.filterMap runtimeStep) i exprCtx (askHost host rt request backendName))
    {call : ResolvedCall S.Ip} (hret : s.runtime.resolveClientResult i = some (.ok call))
    (R : ReqwestApi U.Url) (inputs : CallInputs) (wire : Request U.Url) :
    SentBy U H R rt.profile call inputs wire ↔
      callerRequest U H rt exprCtx (vault request.identity) inputs = .ok wire := by
  have hrun := run_runtime h
  obtain ⟨b, hres, -⟩ := run_resolves hrun hi
  have hsent := run_sentBy hv hrun hh hi hret R inputs wire
  unfold uncachedRequest at hsent
  unfold callerRequest
  rw [askHost_resolves hfill hhost hres, ← hres]
  exact hsent

/-! ## Two callers with a token each -/

def plainProtocolApi : ProtocolApi := ⟨Nat, Nat, String⟩

/-- A caller holds the token it is known by. -/
def tokenVault (identity : Option String) (uri : String) : Option String :=
  if uri = "cred://oauth/api" then identity else none

def tokenFields (identity : Option String) :
    List (String × Value) → Option (List (String × Value))
  | [] => some []
  | (uri, _) :: fields => do
    let token ← tokenVault identity uri
    let rest ← tokenFields identity fields
    return (uri, .string token) :: rest

def plainHost : BackendHost plainProtocolApi
  | ctx, .object fields =>
    ((tokenFields ctx.identity fields).map Value.object).elim (.error (.backend "no token")) .ok
  | _, _ => .error (.backend "no snapshot")

theorem tokenFields_some {identity : Option String} {fields resolved : List (String × Value)}
    (h : tokenFields identity fields = some resolved) :
    resolved.map Prod.fst = fields.map Prod.fst ∧
      ∀ kv ∈ resolved, ∃ v, tokenVault identity kv.1 = some v ∧ kv.2 = .string v := by
  induction fields generalizing resolved with
  | nil =>
    cases h
    exact ⟨rfl, nofun⟩
  | cons kv fields ih =>
    obtain ⟨token, htoken, h⟩ := Option.bind_eq_some_iff.1 h
    obtain ⟨rest, hrest, h⟩ := Option.bind_eq_some_iff.1 h
    cases h
    obtain ⟨hkeys, hvalues⟩ := ih hrest
    refine ⟨by rw [List.map_cons, List.map_cons, hkeys], ?_⟩
    rw [List.forall_mem_cons]
    exact ⟨⟨token, htoken, rfl⟩, hvalues⟩

theorem plainHost_substitutes : Substitutes plainHost tokenVault := by
  intro ctx uris answer h
  unfold snapshotOf plainHost at h
  cases hfields : tokenFields ctx.identity (uris.map fun uri => (uri, .string uri)) with
  | none =>
    simp only [hfields] at h
    cases h
  | some resolved =>
    simp only [hfields] at h
    cases h
    obtain ⟨hkeys, hvalues⟩ := tokenFields_some hfields
    rw [List.map_map] at hkeys
    exact ⟨resolved, rfl, hkeys.trans (List.map_id' uris), hvalues⟩

/-- A request of the caller with this token. -/
def tokenRequest (token : String) : BackendRequest plainProtocolApi :=
  ⟨(7 : Nat), (0 : Nat), some token⟩

/-- A client for another caller is cached; it is evicted while a call of this one builds. -/
def revokedBetween : List (ProfileAction plainExprApi Bytes Ipv4) :=
  [.call (.resolveClient 0 () (bearerAnswer "t2") 0), .call (.invoke 0),
    .call (.finish 0 mixedAnswer), .call (.insert 0 3 (.stored _ _)),
    .credentialRevoked "oauth" "api\x7d", .call (.resolveClient 1 () (bearerAnswer "t1") 4),
    .call (.invoke 1), .runTask 0 (.stored _ _), .call (.finish 1 mixedAnswer),
    .call (.insert 1 6 (.stored _ _))]

theorem sent_for_caller_revokedBetween :
    ∃ c call, bearerProfile.exec revokedBetween ([], bearerProfile.init) = some c ∧
      c.2.runtime.resolveClientResult 1 = some (.ok call) ∧
      ∀ inputs wire,
        SentBy plainUrlApi plainHeaderApi plainReqwestApi bearerRuntime.profile call inputs wire ↔
          callerRequest plainUrlApi plainHeaderApi bearerRuntime () (tokenVault (some "t1"))
            inputs = .ok wire := by
  obtain ⟨c, call, st, o, hc, hcall, hst, hl, ho⟩ :
      ∃ c call st o, bearerProfile.exec revokedBetween ([], bearerProfile.init) = some c ∧
        c.2.runtime.resolveClientResult 1 = some (.ok call) ∧
        (c.1.filterMap runtimeStep)[4]? = some st ∧
        st.label = .resolveClient 1 () (bearerAnswer "t1") 4 ∧ st.out = .registry o :=
    ⟨_, _, _, _, rfl, rfl, rfl, rfl, rfl⟩
  have hask : askHost plainHost bearerRuntime (tokenRequest "t1") "hook" = bearerAnswer "t1" := by
    unfold askHost askedUris
    rw [bearerRuntime_credUris]
    rfl
  have hi : Resolves (X := plainExprApi) (S := plainSecurityApi) (c.1.filterMap runtimeStep) 1 ()
      (askHost plainHost bearerRuntime (tokenRequest "t1") "hook") := by
    rw [hask]
    exact ⟨st, List.mem_of_getElem? hst, 4, o, hl, ho⟩
  exact ⟨c, call, hc, hcall, sent_for_caller plain_fillsOwnRefs plainHost_substitutes
    plain_noLineFeed (Machine.exec_init hc) (plainHash_injOn _) hi hcall plainReqwestApi⟩

end NetCore
