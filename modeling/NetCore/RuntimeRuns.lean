import NetCore.RegistryOrigin
import NetCore.Runtime

/-!
# Runs of one profile

The calls of a profile share its registry.  A step of the runtime is a step of
the registry, or shows that there is none: a call whose templates fail, a
rotation of a secret the profile does not use.  `plan` says which; so a run of
the runtime is a run of the registry (`run_registry`), in which every call was
given its own bundle's digest and keys, and builds from its own bundle
(`run_bundled`).
-/

namespace NetCore

open HashTable StepSystem

inductive CallKind
  | resolveClient
  | resolveStaticClient
deriving DecidableEq, Repr

structure RuntimeState (D Ip : Type) where
  registry : Registry D (Client Ip)
  bundles : CallId → Option (CallKind × Bundle)

inductive RuntimeAction (X : ExprApi) (D Ip : Type)
  | resolveClient (i : CallId) (exprCtx : X.ExprContext) (answer : Except BackendHostError Value)
      (elapsed : Nat)
  | resolveStaticClient (i : CallId) (elapsed : Nat)
  | invoke (i : CallId)
  | finish (i : CallId) (answer : BuildAnswer Ip)
  | insert (i : CallId) (elapsed : Nat) (it : IterOrder D (ClientEntry (Client Ip)))
  | abandon (i : CallId)
  | credentialRevoked (pluginId target : String) (it : IterOrder D (ClientEntry (Client Ip)))
  | evictForSecret (secretRef : String)
  | secretRotated (secretRef : String)
  | sweepIdle (elapsed : Nat) (it : IterOrder D (ClientEntry (Client Ip)))

inductive RuntimeShown (D Ip : Type)
  | registry (shown : Shown D (Client Ip))
  | refused (error : String)
  | ignored

/-- What a step amounts to: a step of the registry, after which `bundles` is
what the calls resolved to, or none. -/
inductive Plan (D Ip : Type)
  | registry (action : Action D (Client Ip)) (bundles : CallId → Option (CallKind × Bundle))
  | refused (error : String)
  | ignored

variable (U : UrlApi) (H : HeaderApi) (S : SecurityApi) {X : ExprApi} {D : Type} [DecidableEq D]
  (hash : ByteArray → D) (rt : NetworkProfileRuntime X)

abbrev Bundle.digest (b : Bundle) : D := digestCredentialBundle hash b.pairs

/-- The first section of a call that resolved to `b`. -/
def planLookup (s : RuntimeState D S.Ip) (i : CallId) (kind : CallKind) (b : Bundle)
    (elapsed : Nat) : Plan D S.Ip :=
  .registry (.lookup i (b.digest hash) b.credKeys elapsed)
    (Function.update s.bundles i (some (kind, b)))

def plan (s : RuntimeState D S.Ip) : RuntimeAction X D S.Ip → Option (Plan D S.Ip)
  | .resolveClient i exprCtx answer elapsed =>
    match resolveBundle rt exprCtx answer with
    | .ok b => some (planLookup S hash s i .resolveClient b elapsed)
    | .error e => some (.refused e)
  | .resolveStaticClient i elapsed =>
    some (planLookup S hash s i .resolveStaticClient (staticBundle rt) elapsed)
  | .invoke i => some (.registry (.invoke i) s.bundles)
  | .finish i answer =>
    match s.bundles i with
    | some (_, b) =>
      some (.registry (.finish i (buildHttpClient U H S rt.profile b.url b.headers answer))
        s.bundles)
    | none => none
  | .insert i elapsed it => some (.registry (.insert i elapsed it) s.bundles)
  | .abandon i => some (.registry (.abandon i) s.bundles)
  | .credentialRevoked pluginId target it =>
    some (.registry (.evictFor pluginId target it) s.bundles)
  | .evictForSecret secretRef => some (.registry (.evictForSecret secretRef) s.bundles)
  | .secretRotated secretRef =>
    if rt.secretRefs.contains secretRef then
      some (.registry (.evictForSecret secretRef) s.bundles)
    else some .ignored
  | .sweepIdle elapsed it => some (.registry (.sweepIdle elapsed it) s.bundles)

def runtimeNext (s : RuntimeState D S.Ip) (l : RuntimeAction X D S.Ip) :
    Option (RuntimeState D S.Ip × RuntimeShown D S.Ip) :=
  match plan U H S hash rt s l with
  | some (.registry action bundles) =>
    (registryNext .default s.registry action).map fun next => (⟨next.1, bundles⟩, .registry next.2)
  | some (.refused e) => some (s, .refused e)
  | some .ignored => some (s, .ignored)
  | none => none

def runtimeMachine :
    Machine (RuntimeState D S.Ip) (RuntimeAction X D S.Ip) (RuntimeShown D S.Ip) :=
  ⟨⟨Registry.new, fun _ => none⟩, runtimeNext U H S hash rt⟩

abbrev RuntimeStep (X : ExprApi) (D Ip : Type) :=
  Step (RuntimeState D Ip) (RuntimeAction X D Ip) (RuntimeShown D Ip)

/-! ## The registry's run -/

variable {U H S hash rt}

/-- The registry's side of a step. -/
def registryStep (U : UrlApi) (H : HeaderApi) (S : SecurityApi) (hash : ByteArray → D)
    (rt : NetworkProfileRuntime X) (st : RuntimeStep X D S.Ip) :
    Option (RegistryStep D (Client S.Ip)) :=
  match plan U H S hash rt st.pre st.label, st.out with
  | some (.registry action _), .registry shown =>
    some ⟨st.pre.registry, action, shown, st.post.registry⟩
  | _, _ => none

/-- A step of the runtime is a step of the registry, or changes nothing. -/
theorem runtimeNext_cases {s t : RuntimeState D S.Ip} {l : RuntimeAction X D S.Ip}
    {e : RuntimeShown D S.Ip} (h : runtimeNext U H S hash rt s l = some (t, e)) :
    (∃ a bundles o, plan U H S hash rt s l = some (.registry a bundles) ∧
        registryNext .default s.registry a = some (t.registry, o) ∧ t.bundles = bundles ∧
        e = .registry o) ∨
      (t = s ∧ ∀ o, e ≠ .registry o) := by
  unfold runtimeNext at h
  split at h
  · next a bundles hp =>
    rw [Option.map_eq_some_iff] at h
    obtain ⟨⟨g, o⟩, hg, hst⟩ := h
    cases hst
    exact Or.inl ⟨a, bundles, o, hp, hg, rfl, rfl⟩
  · cases h
    exact Or.inr ⟨rfl, fun o ho => by cases ho⟩
  · cases h
    exact Or.inr ⟨rfl, fun o ho => by cases ho⟩
  · cases h

variable {s : RuntimeState D S.Ip} {hist : List (RuntimeStep X D S.Ip)}

/-- **Refinement.**  A run of the runtime is a run of its registry. -/
theorem run_registry (h : (runtimeMachine U H S hash rt).Run hist s) :
    (registryMachine D (Client S.Ip) .default).Run (hist.filterMap (registryStep U H S hash rt))
      s.registry := by
  refine h.project RuntimeState.registry _ rfl ?_
  intro s l e t hn
  rcases runtimeNext_cases hn with ⟨a, bundles, o, hp, hg, -, rfl⟩ | ⟨rfl, hne⟩
  · right
    refine ⟨a, o, ?_, hg⟩
    unfold registryStep
    rw [hp]
  · left
    refine ⟨?_, rfl⟩
    unfold registryStep
    split
    · next o hp ho => exact absurd ho (hne o)
    · rfl

/-! ## Calls and their bundles -/

/-- Where a recorded bundle comes from: the first step of its own call. -/
def ResolvedIn (rt : NetworkProfileRuntime X) (hist : List (RuntimeStep X D S.Ip)) (i : CallId) :
    CallKind × Bundle → Prop
  | (.resolveClient, b) => ∃ st ∈ hist, ∃ exprCtx answer elapsed,
      st.label = .resolveClient i exprCtx answer elapsed ∧ resolveBundle rt exprCtx answer = .ok b
  | (.resolveStaticClient, b) => ∃ st ∈ hist, ∃ elapsed,
      st.label = .resolveStaticClient i elapsed ∧ b = staticBundle rt

/-- A call has the digest and the keys of its bundle. -/
structure Bundled (hash : ByteArray → D) (rt : NetworkProfileRuntime X)
    (hist : List (RuntimeStep X D S.Ip)) (s : RuntimeState D S.Ip) : Prop where
  bundle_of_call : ∀ {i c}, s.registry.calls i = some c →
    ∃ kind b, s.bundles i = some (kind, b) ∧ c.digest = b.digest hash ∧ c.credKeys = b.credKeys
  call_of_bundle : ∀ {i kb}, s.bundles i = some kb → ∃ c, s.registry.calls i = some c
  resolved : ∀ {i kb}, s.bundles i = some kb → ResolvedIn rt hist i kb
  finished : ∀ {st i answer}, st ∈ hist → st.label = .finish i answer →
    ∃ kb, st.pre.bundles i = some kb ∧ s.bundles i = some kb

omit [DecidableEq D] in
/-- What a step of the registry can be: the first section of a call that has just
resolved, the end of a call's build, or a step that reads no bundle. -/
theorem plan_cases (hist : List (RuntimeStep X D S.Ip)) {l : RuntimeAction X D S.Ip}
    {a : Action D (Client S.Ip)} {bundles : CallId → Option (CallKind × Bundle)}
    (h : plan U H S hash rt s l = some (.registry a bundles)) :
    (∃ i kind b elapsed, a = .lookup i (b.digest hash) b.credKeys elapsed ∧
        bundles = Function.update s.bundles i (some (kind, b)) ∧
        ∀ e t, ResolvedIn rt (⟨s, l, e, t⟩ :: hist) i (kind, b)) ∨
      (bundles = s.bundles ∧ (∀ i digest keys n, a ≠ .lookup i digest keys n) ∧
        ∀ i outcome, a = .finish i outcome →
          ∃ answer kind b, l = .finish i answer ∧ s.bundles i = some (kind, b) ∧
            outcome = buildHttpClient U H S rt.profile b.url b.headers answer) := by
  cases l with
  | resolveClient i exprCtx answer elapsed =>
    simp only [plan] at h
    split at h
    · next b hb =>
      cases h
      refine Or.inl ⟨i, _, b, elapsed, rfl, rfl, fun e t => ?_⟩
      exact ⟨_, List.mem_cons_self, exprCtx, answer, elapsed, rfl, hb⟩
    · cases h
  | resolveStaticClient i elapsed =>
    cases h
    refine Or.inl ⟨i, _, staticBundle rt, elapsed, rfl, rfl, fun e t => ?_⟩
    exact ⟨_, List.mem_cons_self, elapsed, rfl, rfl⟩
  | finish i answer =>
    simp only [plan] at h
    split at h
    · next kind b hb =>
      cases h
      refine Or.inr ⟨rfl, (fun i digest keys n hi => by cases hi), ?_⟩
      intro j outcome hj
      cases hj
      exact ⟨answer, kind, b, rfl, hb, rfl⟩
    · cases h
  | invoke | insert | abandon | credentialRevoked | evictForSecret | sweepIdle =>
    cases h
    exact Or.inr ⟨rfl, (fun i digest keys n hi => by cases hi), (fun i outcome hi => by cases hi)⟩
  | secretRotated r =>
    simp only [plan] at h
    split at h
    · cases h
      exact Or.inr ⟨rfl, (fun i digest keys n hi => by cases hi), (fun i outcome hi => by cases hi)⟩
    · cases h

omit [DecidableEq D] in
theorem ResolvedIn.mono {i : CallId} {kb : CallKind × Bundle} {st : RuntimeStep X D S.Ip}
    (h : ResolvedIn rt hist i kb) : ResolvedIn rt (st :: hist) i kb := by
  obtain ⟨kind, b⟩ := kb
  cases kind with
  | resolveClient | resolveStaticClient =>
    obtain ⟨st', hm, hst'⟩ := h
    exact ⟨st', List.mem_cons_of_mem _ hm, hst'⟩

/-- The first section of a call takes an id no call has. -/
theorem moves_lookup_new {config : ClientRegistryConfig} {C : Type} {g g' : Registry D C}
    {o : Shown D C} {i : CallId} {digest : D} {credKeys : List (String × String)} {elapsed : Nat}
    (h : Moves config g (.lookup i digest credKeys elapsed) g' o) :
    g.calls i = none ∧ ∃ phase, g'.calls i = some ⟨digest, credKeys, phase⟩ := by
  cases h with
  | hit hc hl | miss hc hl => exact ⟨hc, _, Function.update_self _ _ _⟩

theorem call_kept {l : RuntimeAction X D S.Ip} {e : RuntimeShown D S.Ip}
    {t : RuntimeState D S.Ip} (hn : runtimeNext U H S hash rt s l = some (t, e)) {i : CallId}
    {c : Call D (Client S.Ip)} (hc : s.registry.calls i = some c) :
    ∃ c', t.registry.calls i = some c' := by
  rcases runtimeNext_cases hn with ⟨a, bundles, o, -, hg, -, -⟩ | ⟨rfl, -⟩
  · obtain ⟨q, hq, -⟩ := moves_call (registryNext_moves hg) hc
    exact ⟨_, hq⟩
  · exact ⟨c, hc⟩

/-- A bundle was there before, or belongs to a call that starts in this step. -/
theorem bundle_origin (hist : List (RuntimeStep X D S.Ip)) {l : RuntimeAction X D S.Ip}
    {e : RuntimeShown D S.Ip} {t : RuntimeState D S.Ip}
    (hn : runtimeNext U H S hash rt s l = some (t, e)) {i : CallId} {kb : CallKind × Bundle}
    (hi : t.bundles i = some kb) :
    s.bundles i = some kb ∨
      ((∃ c, t.registry.calls i = some c) ∧ ResolvedIn rt (⟨s, l, e, t⟩ :: hist) i kb) := by
  rcases runtimeNext_cases hn with ⟨a, bundles, o, hp, hg, rfl, -⟩ | ⟨rfl, -⟩
  · rcases plan_cases hist hp with ⟨j, kind, b, elapsed, rfl, hupd, hres⟩ | ⟨hsame, -⟩
    · rw [hupd] at hi
      by_cases hij : i = j
      · subst hij
        rw [Function.update_self, Option.some.injEq] at hi
        subst hi
        obtain ⟨phase, hc⟩ := (moves_lookup_new (registryNext_moves hg)).2
        exact Or.inr ⟨⟨_, hc⟩, hres e t⟩
      · rw [Function.update_of_ne hij] at hi
        exact Or.inl hi
    · rw [hsame] at hi
      exact Or.inl hi
  · exact Or.inl hi

/-- A bundle stays with its call. -/
theorem Bundled.kept {l : RuntimeAction X D S.Ip} {e : RuntimeShown D S.Ip}
    {t : RuntimeState D S.Ip} (hn : runtimeNext U H S hash rt s l = some (t, e))
    (hb : Bundled hash rt hist s) {i : CallId} {kb : CallKind × Bundle}
    (hi : s.bundles i = some kb) : t.bundles i = some kb := by
  rcases runtimeNext_cases hn with ⟨a, bundles, o, hp, hg, rfl, -⟩ | ⟨rfl, -⟩
  · rcases plan_cases hist hp with ⟨j, kind, b, elapsed, rfl, hupd, -⟩ | ⟨hsame, -⟩
    · have hij : i ≠ j := by
        rintro rfl
        obtain ⟨c, hc⟩ := hb.call_of_bundle hi
        rw [(moves_lookup_new (registryNext_moves hg)).1] at hc
        cases hc
      rw [hupd, Function.update_of_ne hij, hi]
    · rw [hsame, hi]
  · exact hi

/-- A call that was there keeps its bundle; a new one has the bundle of its first step. -/
theorem Bundled.step {l : RuntimeAction X D S.Ip} {e : RuntimeShown D S.Ip}
    {t : RuntimeState D S.Ip} (hn : runtimeNext U H S hash rt s l = some (t, e))
    (hb : Bundled hash rt hist s) : Bundled hash rt (⟨s, l, e, t⟩ :: hist) t where
  bundle_of_call := by
    intro i c hc
    rcases runtimeNext_cases hn with ⟨a, bundles, o, hp, hg, hbundles, -⟩ | ⟨rfl, -⟩
    · rcases moves_call_origin (registryNext_moves hg) hc with ⟨phase, hold⟩ | ⟨-, elapsed, rfl⟩
      · obtain ⟨kind, b, hi, hdigest, hkeys⟩ := hb.bundle_of_call hold
        exact ⟨kind, b, hb.kept hn hi, hdigest, hkeys⟩
      · rcases plan_cases hist hp with ⟨j, kind, b, elapsed', ha, hupd, -⟩ | ⟨-, hne, -⟩
        · injection ha with hj hdigest hkeys _
          subst hj
          exact ⟨kind, b, by rw [hbundles, hupd, Function.update_self], hdigest, hkeys⟩
        · exact absurd rfl (hne _ _ _ _)
    · exact hb.bundle_of_call hc
  call_of_bundle := by
    intro i kb hi
    rcases bundle_origin hist hn hi with hs | ⟨hc, -⟩
    · obtain ⟨c, hc⟩ := hb.call_of_bundle hs
      exact call_kept hn hc
    · exact hc
  resolved := by
    intro i kb hi
    rcases bundle_origin hist hn hi with hs | ⟨-, hres⟩
    · exact (hb.resolved hs).mono
    · exact hres
  finished := by
    intro st i answer hm hl
    rcases List.mem_cons.1 hm with rfl | hm
    · cases hl
      cases hi : s.bundles i with
      | some kb => exact ⟨kb, rfl, hb.kept hn hi⟩
      | none =>
        simp only [runtimeNext, plan, hi] at hn
        cases hn
    · obtain ⟨kb, hpre, hs⟩ := hb.finished hm hl
      exact ⟨kb, hpre, hb.kept hn hs⟩

theorem run_bundled (h : (runtimeMachine U H S hash rt).Run hist s) : Bundled hash rt hist s := by
  refine h.inv (P := Bundled hash rt) ?_ ?_
  · exact ⟨(nomatch ·), (nomatch ·), (nomatch ·), (nomatch ·)⟩
  · intro hist s l e t _ hb hn
    exact hb.step hn

/-- The end of a build is the end of the build of the call's own bundle. -/
theorem run_finish (h : (runtimeMachine U H S hash rt).Run hist s) {st : RuntimeStep X D S.Ip}
    (hst : st ∈ hist) {i : CallId} {answer : BuildAnswer S.Ip} (hl : st.label = .finish i answer)
    {kb : CallKind × Bundle} (hi : s.bundles i = some kb) :
    ∃ rst ∈ hist.filterMap (registryStep U H S hash rt), rst.pre = st.pre.registry ∧
      rst.post = st.post.registry ∧ rst.label =
        .finish i (buildHttpClient U H S rt.profile kb.2.url kb.2.headers answer) := by
  obtain ⟨kb', hpre, hs⟩ := (run_bundled h).finished hst hl
  rw [hi, Option.some.injEq] at hs
  subst hs
  have hn : runtimeNext U H S hash rt st.pre st.label = some (st.post, st.out) := h.step_of_mem hst
  have hplan : plan U H S hash rt st.pre st.label = some (.registry
      (.finish i (buildHttpClient U H S rt.profile kb.2.url kb.2.headers answer))
      st.pre.bundles) := by
    rw [hl]
    simp only [plan, hpre]
  rcases runtimeNext_cases hn with ⟨a, bundles, o, hp, -, -, ho⟩ | ⟨-, hne⟩
  · rw [hplan] at hp
    cases hp
    refine ⟨⟨st.pre.registry, _, o, st.post.registry⟩, List.mem_filterMap.2 ⟨st, hst, ?_⟩,
      rfl, rfl, rfl⟩
    unfold registryStep
    rw [hplan, ho]
  · unfold runtimeNext at hn
    rw [hplan, Option.map_eq_some_iff] at hn
    obtain ⟨next, -, hnext⟩ := hn
    exact absurd (congrArg Prod.snd hnext).symm (hne _)

/-- The registry's end of a build is such an end. -/
theorem run_registry_finish (h : (runtimeMachine U H S hash rt).Run hist s)
    {rst : RegistryStep D (Client S.Ip)} (hm : rst ∈ hist.filterMap (registryStep U H S hash rt))
    {i : CallId} {outcome : Except String (Client S.Ip)} (hl : rst.label = .finish i outcome) :
    ∃ kind b answer, s.bundles i = some (kind, b) ∧ (∃ st ∈ hist, st.label = .finish i answer) ∧
      outcome = buildHttpClient U H S rt.profile b.url b.headers answer := by
  obtain ⟨st, hst, hproj⟩ := List.mem_filterMap.1 hm
  unfold registryStep at hproj
  split at hproj
  · next a bundles o hp ho =>
    cases hproj
    simp only at hl
    subst hl
    rcases plan_cases hist hp with ⟨j, kind', b', n, hne, -⟩ | ⟨-, -, hfin⟩
    · cases hne
    · obtain ⟨answer, kind, b, hlabel, hpre, hout⟩ := hfin _ _ rfl
      obtain ⟨kb, hpre', hnow⟩ := (run_bundled h).finished hst hlabel
      rw [hpre, Option.some.injEq] at hpre'
      subst hpre'
      exact ⟨kind, b, answer, hnow, ⟨st, hst, hlabel⟩, hout⟩
  · cases hproj

/-- **Every client of a run was built from the bundle of the call it names.** -/
theorem run_built_from (h : (runtimeMachine U H S hash rt).Run hist s) {digest : D}
    {credKeys : List (String × String)} {client : Arc (Client S.Ip)}
    (hb : BuiltBy (hist.filterMap (registryStep U H S hash rt)) s.registry digest credKeys client) :
    ∃ kind b answer, s.bundles client.ptr = some (kind, b) ∧ digest = b.digest hash ∧
      credKeys = b.credKeys ∧ (∃ st ∈ hist, st.label = .finish client.ptr answer) ∧
      buildHttpClient U H S rt.profile b.url b.headers answer = .ok client.val := by
  obtain ⟨⟨phase, hc⟩, rst, hm, hl⟩ := hb
  obtain ⟨kind, b, hi, hdigest, hkeys⟩ := (run_bundled h).bundle_of_call hc
  obtain ⟨kind', b', answer, hi', hfinish, hout⟩ := run_registry_finish h hm hl
  rw [hi, Option.some.injEq] at hi'
  cases hi'
  exact ⟨kind, b, answer, hi, hdigest, hkeys, hfinish, hout.symm⟩

/-- A digest that keeps the bytes it was fed. -/
def plainHash (bytes : ByteArray) : Bytes := bytes.data.toList

abbrev bearerMachine : Machine (RuntimeState Bytes Ipv4) (RuntimeAction plainExprApi Bytes Ipv4)
    (RuntimeShown Bytes Ipv4) :=
  runtimeMachine plainUrlApi plainHeaderApi plainSecurityApi plainHash bearerRuntime

end NetCore
