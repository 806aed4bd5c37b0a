import Mathlib.Data.Set.Function
import NetCore.RuntimeRuns

/-!
# No call gets a client of another bundle

A call finds a client by the digest of its bundle.  The bundles of one profile
have the same header names and line-feed-free header values, or no header at
all, so the preimage of the digest gives back the URL and the headers
(`OfProfile.eq_of_preimage`).  With a hash that does not collide on the
preimages of a run, every client a call returns was built from the call's own
URL and headers (`client_isolation`).
-/

namespace NetCore

open HashTable StepSystem

/-- What `resolve_client` returns. -/
structure ResolvedCall (Ip : Type) where
  client : Arc (Client Ip)
  resolvedUrl : String
  resolvedHeaders : SortedMap String String

namespace RuntimeState

variable {D Ip : Type} (s : RuntimeState D Ip) (i : CallId)

/-- The end of `resolve_client`, if call `i` is one and has ended. -/
def resolveClientResult : Option (Except String (ResolvedCall Ip)) :=
  match s.registry.calls i, s.bundles i with
  | some ⟨_, _, .returned (.ok client)⟩, some (.resolveClient, b) =>
    some (.ok ⟨client, b.url, b.headers⟩)
  | some ⟨_, _, .returned (.error e)⟩, some (.resolveClient, _) =>
    some (.error s!"building HTTP client: {e}")
  | _, _ => none

/-- The end of `resolve_static_client`. -/
def resolveStaticClientResult : Option (Except String (Arc (Client Ip))) :=
  match s.registry.calls i, s.bundles i with
  | some ⟨_, _, .returned (.ok client)⟩, some (.resolveStaticClient, _) => some (.ok client)
  | some ⟨_, _, .returned (.error e)⟩, some (.resolveStaticClient, _) =>
    some (.error s!"building HTTP client: {e}")
  | _, _ => none

/-- The byte strings the calls of a run have fed to the hash. -/
def hashed : Set ByteArray := {p | ∃ i kb, s.bundles i = some kb ∧ p = digestPreimage kb.2.pairs}

variable {s i}

theorem resolveClientResult_ok {call : ResolvedCall Ip}
    (h : s.resolveClientResult i = some (.ok call)) :
    ∃ digest credKeys b, s.registry.calls i = some ⟨digest, credKeys, .returned (.ok call.client)⟩ ∧
      s.bundles i = some (.resolveClient, b) ∧ call.resolvedUrl = b.url ∧
      call.resolvedHeaders = b.headers := by
  unfold resolveClientResult at h
  split at h
  · next hc hb =>
    cases h
    exact ⟨_, _, _, hc, hb, rfl, rfl⟩
  · cases h
  · cases h

theorem resolveStaticClientResult_ok {client : Arc (Client Ip)}
    (h : s.resolveStaticClientResult i = some (.ok client)) :
    ∃ digest credKeys b, s.registry.calls i = some ⟨digest, credKeys, .returned (.ok client)⟩ ∧
      s.bundles i = some (.resolveStaticClient, b) := by
  unfold resolveStaticClientResult at h
  split at h
  · next hc hb =>
    cases h
    exact ⟨_, _, _, hc, hb⟩
  · cases h
  · cases h

end RuntimeState

/-! ## The bundles of a profile -/

variable {U : UrlApi} {H : HeaderApi} {S : SecurityApi} {X : ExprApi} {D : Type} [DecidableEq D]
  {hash : ByteArray → D} {rt : NetworkProfileRuntime X}

/-- A header value that passes `validate_header_value` holds no line feed. -/
def NoLineFeed (X : ExprApi) : Prop :=
  ∀ name value, X.validateHeaderValue name value = .ok () → '\n' ∉ value.toList

structure OfProfile (rt : NetworkProfileRuntime X) (b : Bundle) : Prop where
  keys : b.headers.keys = rt.compiledHeaders.keys ∨ b.headers.entries = []
  lineFree : ∀ kv ∈ b.headers.entries, '\n' ∉ kv.2.toList

/-- **The preimage of the digest gives back the URL and the headers.** -/
theorem OfProfile.eq_of_preimage {b b' : Bundle} (hb : OfProfile rt b) (hb' : OfProfile rt b')
    (h : digestPreimage b.pairs = digestPreimage b'.pairs) :
    b.url = b'.url ∧ b.headers = b'.headers := by
  have hkeys : b.headers.keys = b'.headers.keys := by
    by_cases he : b.headers.entries = []
    · by_cases he' : b'.headers.entries = []
      · unfold SortedMap.keys
        rw [he, he']
      · unfold Bundle.pairs at h
        rw [he] at h
        exact absurd h.symm (static_preimage_ne he')
    · by_cases he' : b'.headers.entries = []
      · unfold Bundle.pairs at h
        rw [he'] at h
        exact absurd h (static_preimage_ne he)
      · rw [hb.keys.resolve_right he, hb'.keys.resolve_right he']
  obtain ⟨hurl, hentries⟩ := bundle_preimage_inj hkeys hb.lineFree hb'.lineFree h
  exact ⟨hurl, SortedMap.ext hentries⟩

variable {hist : List (RuntimeStep X D S.Ip)} {s : RuntimeState D S.Ip}

omit [DecidableEq D] in
theorem ResolvedIn.ofProfile (hv : NoLineFeed X) {i : CallId} {kb : CallKind × Bundle}
    (h : ResolvedIn rt hist i kb) : OfProfile rt kb.2 := by
  obtain ⟨kind, b⟩ := kb
  cases kind with
  | resolveClient =>
    obtain ⟨st, -, exprCtx, answer, elapsed, -, hres⟩ := h
    obtain ⟨hkeys, hvalid, -⟩ := resolveBundle_ok hres
    exact ⟨Or.inl hkeys, fun kv hkv => hv kv.1 kv.2 (hvalid kv hkv)⟩
  | resolveStaticClient =>
    obtain ⟨st, -, elapsed, -, rfl⟩ := h
    exact ⟨Or.inr rfl, fun kv hkv => by cases hkv⟩

/-- Two calls of a run with one digest have one URL and one header map. -/
theorem bundle_of_digest (hv : NoLineFeed X) (h : (runtimeMachine U H S hash rt).Run hist s)
    (hh : Set.InjOn hash s.hashed) {i j : CallId} {kb kb' : CallKind × Bundle}
    (hi : s.bundles i = some kb) (hj : s.bundles j = some kb')
    (hd : kb.2.digest hash = kb'.2.digest hash) :
    kb.2.url = kb'.2.url ∧ kb.2.headers = kb'.2.headers := by
  have hbun := run_bundled h
  have hpre : digestPreimage kb.2.pairs = digestPreimage kb'.2.pairs :=
    hh ⟨i, kb, hi, rfl⟩ ⟨j, kb', hj, rfl⟩ hd
  exact ((hbun.resolved hi).ofProfile hv).eq_of_preimage ((hbun.resolved hj).ofProfile hv) hpre

/-! ## Isolation -/

/-- The client was built in this run, by the build of some call, from this URL
and these headers and what the outside answered that build. -/
def BuiltFrom (U : UrlApi) (H : HeaderApi) (S : SecurityApi) (profile : HttpRequestProfile)
    (hist : List (RuntimeStep X D S.Ip)) (url : String) (headers : SortedMap String String)
    (client : Arc (Client S.Ip)) : Prop :=
  ∃ st ∈ hist, ∃ answer, st.label = .finish client.ptr answer ∧
    buildHttpClient U H S profile url headers answer = .ok client.val

/-- The client a call returned was built from the bundle of that call. -/
theorem run_returned_builtFrom (hv : NoLineFeed X)
    (h : (runtimeMachine U H S hash rt).Run hist s) (hh : Set.InjOn hash s.hashed) {i : CallId}
    {digest : D} {credKeys : List (String × String)} {client : Arc (Client S.Ip)}
    (hret : s.registry.calls i = some ⟨digest, credKeys, .returned (.ok client)⟩)
    {kb : CallKind × Bundle} (hi : s.bundles i = some kb) :
    BuiltFrom U H S rt.profile hist kb.2.url kb.2.headers client := by
  obtain ⟨credKeys', hbuilt⟩ := (run_traced (run_registry h)).returned hret
  obtain ⟨kind, b, answer, hptr, hdigest, -, ⟨st, hst, hlabel⟩, hbuild⟩ := run_built_from h hbuilt
  obtain ⟨kind', b', hi', hdigest', -⟩ := (run_bundled h).bundle_of_call hret
  rw [hi, Option.some.injEq] at hi'
  subst hi'
  obtain ⟨hurl, hheaders⟩ := bundle_of_digest hv h hh hptr hi (hdigest.symm.trans hdigest')
  refine ⟨st, hst, answer, hlabel, ?_⟩
  rw [← hurl, ← hheaders]
  exact hbuild

/-- **Credential isolation.**  Every call of every run gets a client built from
its own URL and headers: those its templates resolved to, or the profile's URL
and no header for a static one. -/
theorem client_isolation (hv : NoLineFeed X) (h : (runtimeMachine U H S hash rt).Run hist s)
    (hh : Set.InjOn hash s.hashed) :
    (∀ i call, s.resolveClientResult i = some (.ok call) →
      (∃ st ∈ hist, ∃ exprCtx answer elapsed b, st.label = .resolveClient i exprCtx answer elapsed ∧
        resolveBundle rt exprCtx answer = .ok b ∧ call.resolvedUrl = b.url ∧
        call.resolvedHeaders = b.headers) ∧
      BuiltFrom U H S rt.profile hist call.resolvedUrl call.resolvedHeaders call.client) ∧
    (∀ i client, s.resolveStaticClientResult i = some (.ok client) →
      (∃ st ∈ hist, ∃ elapsed, st.label = .resolveStaticClient i elapsed) ∧
      BuiltFrom U H S rt.profile hist rt.profile.url .empty client) := by
  refine ⟨?_, ?_⟩
  · intro i call hret
    obtain ⟨digest, credKeys, b, hc, hb, hurl, hheaders⟩ :=
      RuntimeState.resolveClientResult_ok hret
    obtain ⟨st, hst, exprCtx, answer, elapsed, hlabel, hres⟩ := (run_bundled h).resolved hb
    rw [hurl, hheaders]
    exact ⟨⟨st, hst, exprCtx, answer, elapsed, b, hlabel, hres, rfl, rfl⟩,
      run_returned_builtFrom hv h hh hc hb⟩
  · intro i client hret
    obtain ⟨digest, credKeys, b, hc, hb⟩ := RuntimeState.resolveStaticClientResult_ok hret
    obtain ⟨st, hst, elapsed, hlabel, rfl⟩ := (run_bundled h).resolved hb
    exact ⟨⟨st, hst, elapsed, hlabel⟩, run_returned_builtFrom hv h hh hc hb⟩

/-! ## Two callers and a static call -/

theorem plain_noLineFeed : NoLineFeed plainExprApi := by
  intro name value hok hmem
  unfold plainExprApi at hok
  simp only at hok
  split at hok
  · next hall =>
    have := List.all_eq_true.1 hall _ hmem
    exact absurd this (by decide)
  · cases hok

theorem plainHash_injOn (fed : Set ByteArray) : Set.InjOn plainHash fed := by
  intro x _ y _ h
  exact ByteArray.ext (Array.toList_inj.1 h)

/-- Two callers with their own tokens, a static call, and the first caller again. -/
def twoTokens : List (RuntimeAction plainExprApi Bytes Ipv4) :=
  [.resolveClient 0 () (bearerAnswer "t1") 0, .resolveClient 1 () (bearerAnswer "t2") 0,
    .resolveStaticClient 2 0, .invoke 0, .invoke 1, .invoke 2, .finish 1 mixedAnswer,
    .finish 0 mixedAnswer, .finish 2 mixedAnswer, .insert 1 5 (.stored _ _),
    .insert 0 6 (.stored _ _), .insert 2 7 (.stored _ _),
    .resolveClient 3 () (bearerAnswer "t1") 9]

theorem client_isolation_twoTokens :
    ∃ c call, bearerMachine.exec twoTokens ([], bearerMachine.init) = some c ∧
      c.2.resolveClientResult 3 = some (.ok call) ∧
      BuiltFrom plainUrlApi plainHeaderApi plainSecurityApi bearerRuntime.profile c.1
        call.resolvedUrl call.resolvedHeaders call.client := by
  obtain ⟨c, call, hc, hcall⟩ :
      ∃ c call, bearerMachine.exec twoTokens ([], bearerMachine.init) = some c ∧
        c.2.resolveClientResult 3 = some (.ok call) := ⟨_, _, rfl, rfl⟩
  have h := client_isolation plain_noLineFeed (Machine.exec_init hc) (plainHash_injOn _)
  exact ⟨c, call, hc, hcall, (h.1 3 call hcall).2⟩

end NetCore
