import NetCore.ErrorText
import NetCore.Isolation

/-!
# What the error of a build shows

The URL and the header values of a bundle hold credentials.  A call whose build fails
returns that build's error, and no other's.  The text depends on the URL only through
its host and port, and on the headers only through their names and which values can be
sent: any bundle that looks alike in these gives the same text
(`build_errors_confined`).
-/

namespace NetCore

open HashTable StepSystem

variable {U : UrlApi} {H : HeaderApi} {S : SecurityApi}

/-- Of a URL that parses, the host and the port. -/
def authorityOf (U : UrlApi) (url : String) : Option (Option String × Option UInt16) :=
  match U.parse url with
  | .ok url => some (U.hostStr url, U.portOrKnownDefault url)
  | .error _ => none

/-- The same names, and values that can both be sent or both not. -/
def HeadersAlike (H : HeaderApi) : List (String × String) → List (String × String) → Prop :=
  List.Forall₂ fun h h' =>
    h.1 = h'.1 ∧ (H.headerValue h.2).toBool = (H.headerValue h'.2).toBool

structure LooksAlike (U : UrlApi) (H : HeaderApi) (b b' : Bundle) : Prop where
  authority : authorityOf U b.url = authorityOf U b'.url
  headers : HeadersAlike H b.headers.entries b'.headers.entries

/-- `InvalidHeaderValue` has one text, whatever the value. -/
def OneValueError (H : HeaderApi) : Prop :=
  ∀ v v' e e', H.headerValue v = .error e → H.headerValue v' = .error e' → e = e'

/-! ## One build -/

theorem defaultHeadersLoop_errorOf (hone : OneValueError H) (isJsonCall : Bool)
    {hs hs' : List (String × String)} (h : HeadersAlike H hs hs') (map map' : HeaderMap) :
    errorOf (defaultHeadersLoop H isJsonCall hs map) =
      errorOf (defaultHeadersLoop H isJsonCall hs' map') := by
  induction h generalizing map map' with
  | nil => rfl
  | @cons kv kv' hs hs' hkv _ ih =>
    obtain ⟨name, value⟩ := kv
    obtain ⟨name', value'⟩ := kv'
    obtain ⟨rfl, hvalue⟩ := hkv
    unfold defaultHeadersLoop
    by_cases hp : isProtectedRequestHeader name isJsonCall = true
    · rw [if_pos hp, if_pos hp]
      exact ih map map'
    · rw [if_neg hp, if_neg hp]
      cases H.headerName name with
      | error e => rfl
      | ok headerName =>
        cases hv : H.headerValue value with
        | error e =>
          cases hv' : H.headerValue value' with
          | error e' =>
            rw [hone _ _ _ _ hv hv']
            rfl
          | ok v' =>
            rw [hv, hv'] at hvalue
            cases hvalue
        | ok v =>
          cases hv' : H.headerValue value' with
          | error e' =>
            rw [hv, hv'] at hvalue
            cases hvalue
          | ok v' => exact ih _ _

theorem errorOf_bind_congr {α β γ : Type} {x : Except String α} {y : Except String β}
    {f : α → Except String γ} {g : β → Except String γ} (hxy : errorOf x = errorOf y)
    (h : ∀ a b, x = .ok a → y = .ok b → errorOf (f a) = errorOf (g b)) :
    errorOf (x >>= f) = errorOf (y >>= g) := by
  cases x with
  | error e =>
    cases y with
    | error e' => exact hxy
    | ok b => cases hxy
  | ok a =>
    cases y with
    | error e' => cases hxy
    | ok b => exact h a b rfl rfl

theorem errorOf_bind {α γ : Type} (x : Except String α) {f g : α → Except String γ}
    (h : ∀ a, errorOf (f a) = errorOf (g a)) : errorOf (x >>= f) = errorOf (x >>= g) := by
  apply errorOf_bind_congr rfl
  intro a b ha hb
  rw [ha] at hb
  cases hb
  exact h a

/-- Bundles that look alike fail alike, whatever the outside answers. -/
theorem buildHttpClient_errorOf (hone : OneValueError H) (profile : HttpRequestProfile)
    {b b' : Bundle} (h : LooksAlike U H b b') (answer : BuildAnswer S.Ip) :
    errorOf (buildHttpClient U H S profile b.url b.headers answer) =
      errorOf (buildHttpClient U H S profile b'.url b'.headers answer) := by
  have hauthority := h.authority
  unfold authorityOf at hauthority
  unfold buildHttpClient
  cases hparse : U.parse b.url with
  | error e =>
    cases hparse' : U.parse b'.url with
    | error e' => rfl
    | ok url' =>
      rw [hparse, hparse'] at hauthority
      cases hauthority
  | ok url =>
    cases hparse' : U.parse b'.url with
    | error e' =>
      rw [hparse, hparse'] at hauthority
      cases hauthority
    | ok url' =>
      rw [hparse, hparse'] at hauthority
      obtain ⟨hhost, hport⟩ := Prod.mk.inj (Option.some.inj hauthority)
      show errorOf (okOr (U.hostStr url) _ >>= _) = errorOf (okOr (U.hostStr url') _ >>= _)
      rw [hhost, hport]
      -- up to the headers the two builds are one
      refine errorOf_bind _ fun host => errorOf_bind _ fun port => errorOf_bind _ fun pairs =>
        errorOf_bind _ fun resolved => ?_
      apply errorOf_bind_congr (defaultHeadersLoop_errorOf hone _ h.headers [] [])
      intro defaults defaults' _ _
      cases answer.clientBuilt with
      | true => rfl
      | false => rfl

/-! ## In a run -/

variable {D C : Type} [DecidableEq D] {config : ClientRegistryConfig} {g g' : Registry D C}
  {a : Action D C} {o : Shown D C}

/-- A call that returned an error returned it before, or its build ends with it now. -/
theorem moves_error (h : Moves config g a g' o) {i : CallId} {digest : D}
    {credKeys : List (String × String)} {e : String}
    (ht : g'.calls i = some ⟨digest, credKeys, .returned (.error e)⟩) :
    g.calls i = some ⟨digest, credKeys, .returned (.error e)⟩ ∨ a = .finish i (.error e) := by
  cases h with
  | hit hc hl | miss hc hl | invoked hc | built hc | lostRace hc hl | inserted hc hl hlru
  | abandoned hc hp =>
    rcases update_some ht with ⟨-, hcall⟩ | ⟨-, hcall⟩
    · cases hcall
    · exact Or.inl hcall
  | failed hc =>
    rcases update_some ht with ⟨rfl, hcall⟩ | ⟨-, hcall⟩
    · cases hcall
      exact Or.inr rfl
    · exact Or.inl hcall
  | evictFor | evictForSecret | sweepIdle => exact Or.inl ht

/-- **An error is that of the call's own build.** -/
theorem run_error {hist : List (RegistryStep D C)} (h : (registryMachine D C config).Run hist g)
    {i : CallId} {digest : D} {credKeys : List (String × String)} {e : String}
    (hi : g.calls i = some ⟨digest, credKeys, .returned (.error e)⟩) :
    ∃ st ∈ hist, st.label = .finish i (.error e) := by
  refine h.inv (P := fun hist g => g.calls i = some ⟨digest, credKeys, .returned (.error e)⟩ →
    ∃ st ∈ hist, st.label = .finish i (.error e)) (fun hnone => by cases hnone) ?_ hi
  intro hist g a g' o _ ih hn hg'
  rcases moves_error (registryNext_moves hn) hg' with hg | rfl
  · obtain ⟨st, hm, hl⟩ := ih hg
    exact ⟨st, List.mem_cons_of_mem _ hm, hl⟩
  · exact ⟨_, List.mem_cons_self, rfl⟩

variable {X : ExprApi} {hash : ByteArray → D} {rt : NetworkProfileRuntime X}
  {hist : List (RuntimeStep X D S.Ip)} {s : RuntimeState D S.Ip}

/-- Call `i` has ended with the error. -/
def EndsWithError (s : RuntimeState D S.Ip) (i : CallId) (e : String) : Prop :=
  s.resolveClientResult i = some (.error e) ∨ s.resolveStaticClientResult i = some (.error e)

omit [DecidableEq D] in
theorem EndsWithError.call {i : CallId} {e : String} (h : EndsWithError s i e) :
    ∃ digest credKeys detail, e = s!"building HTTP client: {detail}" ∧
      s.registry.calls i = some ⟨digest, credKeys, .returned (.error detail)⟩ := by
  rcases h with h | h
  · unfold RuntimeState.resolveClientResult at h
    split at h
    · cases h
    · next hc hb =>
      cases h
      exact ⟨_, _, _, rfl, hc⟩
    · cases h
  · unfold RuntimeState.resolveStaticClientResult at h
    split at h
    · cases h
    · next hc hb =>
      cases h
      exact ⟨_, _, _, rfl, hc⟩
    · cases h

/-- **Build errors are confined.**  In every run, the error a call ends with is that of its
own build, and any bundle that looks like its own fails with the same text on the same
answer from outside: no userinfo, path or query of the URL and no header value shows in it. -/
theorem build_errors_confined (hone : OneValueError H)
    (h : (runtimeMachine U H S hash rt).Run hist s) {i : CallId} {e : String}
    (hend : EndsWithError s i e) :
    ∃ kind b answer, s.bundles i = some (kind, b) ∧ (∃ st ∈ hist, st.label = .finish i answer) ∧
      ∀ b', LooksAlike U H b b' → ∃ detail,
        buildHttpClient U H S rt.profile b'.url b'.headers answer = .error detail ∧
          e = s!"building HTTP client: {detail}" := by
  obtain ⟨digest, credKeys, detail, rfl, hc⟩ := hend.call
  obtain ⟨rst, hm, hl⟩ := run_error (run_registry h) hc
  obtain ⟨kind, b, answer, hi, hfinish, hbuild⟩ := run_registry_finish h hm hl
  refine ⟨kind, b, answer, hi, hfinish, ?_⟩
  intro b' halike
  have herror := buildHttpClient_errorOf (S := S) hone rt.profile halike answer
  rw [← hbuild] at herror
  cases hbuild' : buildHttpClient U H S rt.profile b'.url b'.headers answer with
  | error detail' =>
    rw [hbuild'] at herror
    cases herror
    exact ⟨_, rfl, rfl⟩
  | ok client =>
    rw [hbuild'] at herror
    cases herror

/-! ## A host that resolves to a private address -/

theorem plain_oneValueError : OneValueError plainHeaderApi := by
  intro v v' e e' h h'
  simp only [plainHeaderApi] at h h'
  split at h
  · cases h
  · split at h'
    · cases h'
    · rw [← Except.error.inj h, ← Except.error.inj h']

def privateAnswer : BuildAnswer Ipv4 := ⟨some [⟨⟨10, 0, 0, 7⟩, 443⟩], true⟩

def refusedBuild : List (RuntimeAction plainExprApi Bytes Ipv4) :=
  [.resolveClient 0 () (bearerAnswer "t1") 0, .invoke 0, .finish 0 privateAnswer]

/-- What the profile resolves to for a caller with this token. -/
def bearerBundle (url token : String) : Bundle :=
  ⟨url, ⟨[("authorization", token)], List.pairwise_singleton _ _⟩, [("oauth", "api\x7d")]⟩

/-- Another token, and credentials in the URL. -/
def otherBundle : Bundle := bearerBundle "https://u:p@api.test/hook?key=k" "Bearer t2"

theorem otherBundle_looksAlike : LooksAlike plainUrlApi plainHeaderApi
    (bearerBundle "https://api.test/hook" "Bearer t1") otherBundle where
  authority := by decide
  headers := .cons ⟨rfl, by decide⟩ .nil

theorem build_errors_confined_refusedBuild :
    ∃ c e answer, bearerMachine.exec refusedBuild ([], bearerMachine.init) = some c ∧
      c.2.resolveClientResult 0 = some (.error e) ∧
      ∃ detail, buildHttpClient plainUrlApi plainHeaderApi plainSecurityApi bearerRuntime.profile
        otherBundle.url otherBundle.headers answer = .error detail ∧
          e = s!"building HTTP client: {detail}" := by
  obtain ⟨c, e, hc, he, hb⟩ :
      ∃ c e, bearerMachine.exec refusedBuild ([], bearerMachine.init) = some c ∧
        c.2.resolveClientResult 0 = some (.error e) ∧ c.2.bundles 0 =
          some (.resolveClient, bearerBundle "https://api.test/hook" "Bearer t1") :=
    ⟨_, _, rfl, rfl, rfl⟩
  obtain ⟨kind, b', answer, hb', -, hconfined⟩ :=
    build_errors_confined plain_oneValueError (Machine.exec_init hc) (Or.inl he)
  rw [hb, Option.some.injEq] at hb'
  cases hb'
  exact ⟨c, e, answer, hc, he, hconfined otherBundle otherBundle_looksAlike⟩

end NetCore
