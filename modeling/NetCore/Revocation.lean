import NetCore.RuntimeRuns

/-!
# What a revocation reaches

A template names a credential as `${cred://p/t}`; the keys of an entry are what
`collectCredRefs` finds in the raw texts.  The scanner does not end a target at
`}`, so a segment by itself gives a key with a `}` in its target, or no key
(`scan_onlySegments`), and the announced pair is a key only if it is also
spelled bare.  `run_revoked`: a revocation removes all entries of a profile's
`resolve_client` calls, or none, as its pair is a key.  `revocationReaches_iff`
puts the two together.
-/

namespace NetCore

open HashTable StepSystem Text

/-! ## Segments -/

/-- `raw` has the segment `${cred://p/t}`. -/
def Segment (p t : List Char) (raw : String) : Prop :=
  IsName p ∧ IsName t ∧
    '$' :: '{' :: (credMarker ++ (p ++ '/' :: (t ++ ['}']))) <:+: raw.toList

/-! ## What the scanner makes of a segment -/

/-- Every `cred://` of the text is that of a segment. -/
def OnlySegments (s : List Char) : Prop :=
  ∀ u a, s = u ++ (credMarker ++ a) →
    ∃ p t w, IsName p ∧ IsName t ∧ a = p ++ '/' :: (t ++ '}' :: w)

theorem OnlySegments.suffix {u s : List Char} (h : OnlySegments (u ++ s)) : OnlySegments s := by
  intro v a hs
  exact h (u ++ v) a (by rw [hs, List.append_assoc])

/-- A terminator-free body that starts at a target goes on over the `}` after it. -/
theorem body_passes_brace {t b w r : List Char} {c : Char} (ht : IsName t)
    (hc : isTerminator c = true) (h : b ++ c :: r = t ++ '}' :: w) : ∃ x, b = t ++ '}' :: x := by
  have h' : b ++ c :: r = (t ++ ['}']) ++ w := by
    rw [h]
    simp
  rcases List.append_eq_append_iff.1 h' with ⟨v, hv, hr⟩ | ⟨v, hv, -⟩
  · cases v with
    | nil => exact ⟨[], by rw [← List.append_nil b, ← hv]⟩
    | cons d v =>
      -- the terminator would be in the target or the `}`
      obtain ⟨rfl, -⟩ := List.cons.inj hr
      have hmem : c ∈ t ++ ['}'] := by
        rw [hv]
        simp
      rcases List.mem_append.1 hmem with hm | hm
      · rw [nameChar_not_terminator (ht.2 c hm)] at hc
        cases hc
      · rw [List.mem_singleton.1 hm] at hc
        exact absurd hc (by decide)
  · exact ⟨v, by rw [hv]; simp⟩

/-- Both texts split at their first `/`. -/
theorem split_at_slash {p p' x y : List Char} (hp : ∀ c ∈ p, (c == '/') = false) (hp' : IsName p')
    (h : p ++ '/' :: x = p' ++ '/' :: y) : p = p' ∧ x = y := by
  have hfree : '/' ∉ p := fun hm => by simpa using hp '/' hm
  have hsplit := splitOnce_append x hfree
  rw [h, splitOnce_append y (hp'.not_mem (by decide)), Option.some.injEq, Prod.mk.injEq] at hsplit
  exact ⟨hsplit.1.symm, hsplit.2.symm⟩

/-- The pair of a segment keeps the `}` in its target. -/
theorem reference_segment {p t x : List Char} (ht : IsName t) {k : String × String}
    (hk : k ∈ reference p (cutFragment (t ++ '}' :: x))) : '}' ∈ k.2.toList := by
  have hfree : '#' ∉ t ++ ['}'] := by
    intro hm
    rcases List.mem_append.1 hm with hm | hm
    · exact ht.not_mem (by decide) hm
    · exact absurd (List.mem_singleton.1 hm) (by decide)
  have hcut := cutFragment_free x hfree
  rw [List.append_assoc, List.append_assoc] at hcut
  unfold reference at hk
  split at hk
  · rw [List.mem_singleton.1 hk, String.toList_ofList,
      show t ++ '}' :: x = t ++ (['}'] ++ x) from rfl, hcut]
    simp
  · cases hk

/-- **Of a text whose references are all segments no pair of names is collected.** -/
theorem scan_onlySegments {s : List Char} {ps : List (String × String)} (h : Scan s ps)
    (hs : OnlySegments s) : ∀ k ∈ ps, '}' ∈ k.2.toList := by
  induction h with
  | clear hc | noSlash hu ha =>
    intro k hk
    cases hk
  | @last u p b hu hp hb =>
    intro k hk
    obtain ⟨p', t, w, hp', ht, heq⟩ := hs u _ rfl
    obtain ⟨rfl, rfl⟩ := split_at_slash hp hp' heq
    exact reference_segment ht hk
  | @more u p b r c ps hu hp hb hc hps ih =>
    intro k hk
    obtain ⟨p', t, w, hp', ht, heq⟩ := hs u _ rfl
    obtain ⟨rfl, hbody⟩ := split_at_slash hp hp' heq
    rcases List.mem_append.1 hk with hk | hk
    · obtain ⟨x, rfl⟩ := body_passes_brace ht hc hbody
      exact reference_segment ht hk
    · refine ih (OnlySegments.suffix (u := u ++ (credMarker ++ (p ++ '/' :: b))) ?_) k hk
      simpa using hs

/-! ## Which keys a profile has -/

variable {U : UrlApi} {H : HeaderApi} {S : SecurityApi} {X : ExprApi} {D : Type} [DecidableEq D]
  {hash : ByteArray → D} {rt : NetworkProfileRuntime X} {hist : List (RuntimeStep X D S.Ip)}
  {s pre : RuntimeState D S.Ip}

theorem credRefsIn_of_scan {raw : String} {ps : List (String × String)} (h : Scan raw.toList ps) :
    credRefsIn raw = ps := by
  unfold credRefsIn
  rw [collectCredRefs_of_scan h]
  cases ps with
  | nil => rfl
  | cons k ps => rfl

/-- A pair of names is a key exactly if some raw text spells it bare. -/
theorem credKeys_iff_bareRef (rt : NetworkProfileRuntime X) {p t : List Char} (hp : IsName p)
    (ht : IsName t) :
    (String.ofList p, String.ofList t) ∈ rt.credKeys ↔
      ∃ raw ∈ rt.rawValues, BareRef p t raw.toList := by
  rw [mem_credKeys]
  refine exists_congr fun raw => and_congr_right fun _ => ?_
  obtain ⟨ps, hps⟩ := scan_exists raw.toList
  rw [credRefsIn_of_scan hps]
  exact mem_scan_iff hps (hp.refName ht)

/-! ## What a revocation removes -/

/-- Every entry of a `resolve_client` call has the keys of the profile. -/
theorem run_resolved_keys (h : (runtimeMachine U H S hash rt).Run hist s) {d : D}
    {e : ClientEntry (Client S.Ip)} (he : s.registry.clients.lookup d = some e) {b : Bundle}
    (hb : s.bundles e.client.ptr = some (.resolveClient, b)) : e.credKeys = rt.credKeys := by
  have hbuilt := (run_traced (run_registry h)).cached he
  obtain ⟨kind, b', answer, hb', -, hkeys, -, -⟩ := run_built_from h hbuilt
  rw [hb, Option.some.injEq] at hb'
  cases hb'
  obtain ⟨st, -, exprCtx, answer', elapsed, -, hres⟩ := (run_bundled h).resolved hb
  rw [hkeys, (resolveBundle_ok hres).2.2]

/-- **A revocation removes all entries of `resolve_client` calls, or none.** -/
theorem run_revoked {p t : String} {it : IterOrder D (ClientEntry (Client S.Ip))}
    {o : RuntimeShown D S.Ip}
    (h : (runtimeMachine U H S hash rt).Run (⟨pre, .credentialRevoked p t it, o, s⟩ :: hist) s)
    {d : D} {e : ClientEntry (Client S.Ip)} {b : Bundle}
    (hb : s.bundles e.client.ptr = some (.resolveClient, b)) :
    s.registry.clients.lookup d = some e ↔
      pre.registry.clients.lookup d = some e ∧ (p, t) ∉ rt.credKeys := by
  obtain ⟨hrun, hn, -⟩ := Machine.run_cons.1 h
  have hs : s = ⟨⟨(evictFor it pre.registry.clients p t).1, pre.registry.calls⟩, pre.bundles⟩ :=
    (congrArg Prod.fst (Option.some.inj hn)).symm
  rw [hs] at hb ⊢
  rw [lookup_evictFor]
  refine and_congr_right fun he => ?_
  rw [run_resolved_keys hrun he hb]

/-! ## Revocation -/

def NoBuildInFlight (s : RuntimeState D S.Ip) : Prop :=
  ∀ i digest credKeys phase, s.registry.calls i = some ⟨digest, credKeys, phase⟩ →
    phase ≠ .building ∧ ∀ client, phase ≠ .built client

/-- The revocation of `(p, t)` reaches every client of the profile's `resolve_client`
calls. -/
structure RevocationReaches (U : UrlApi) (H : HeaderApi) (S : SecurityApi) (hash : ByteArray → D)
    (rt : NetworkProfileRuntime X) (p t : String) : Prop where
  keyed : (p, t) ∈ rt.credKeys
  evicted : ∀ hist pre s it o,
    (runtimeMachine U H S hash rt).Run (⟨pre, .credentialRevoked p t it, o, s⟩ :: hist) s →
      NoBuildInFlight s → ∀ d e, s.registry.clients.lookup d = some e →
        ∀ b, s.bundles e.client.ptr ≠ some (.resolveClient, b)

theorem revocationReaches_of_key {p t : String} (hk : (p, t) ∈ rt.credKeys) :
    RevocationReaches U H S hash rt p t where
  keyed := hk
  evicted := by
    intro hist pre s it o h _ d e he b hb
    exact ((run_revoked h hb).1 he).2 hk

/-- **Revocation reaches the clients of all segments** exactly if each segment's
pair is also spelled bare: outside every earlier reference, and followed by a `#`,
a terminator or the end of the text. -/
theorem revocationReaches_iff (U : UrlApi) (H : HeaderApi) (S : SecurityApi)
    (hash : ByteArray → D) (rt : NetworkProfileRuntime X) :
    (∀ raw ∈ rt.rawValues, ∀ p t, Segment p t raw →
      RevocationReaches U H S hash rt (String.ofList p) (String.ofList t)) ↔
    ∀ raw ∈ rt.rawValues, ∀ p t, Segment p t raw →
      ∃ raw' ∈ rt.rawValues, BareRef p t raw'.toList := by
  constructor
  · intro h raw hraw p t hseg
    exact (credKeys_iff_bareRef rt hseg.1 hseg.2.1).1 (h raw hraw p t hseg).keyed
  · intro h raw hraw p t hseg
    apply revocationReaches_of_key
    exact (credKeys_iff_bareRef rt hseg.1 hseg.2.1).2 (h raw hraw p t hseg)

/-- So a profile whose references are all segments has none that is reached. -/
theorem segment_not_reached (hs : ∀ raw ∈ rt.rawValues, OnlySegments raw.toList)
    {p t : List Char} (ht : IsName t) :
    ¬ RevocationReaches U H S hash rt (String.ofList p) (String.ofList t) := by
  intro h
  obtain ⟨raw, hraw, hk⟩ := (mem_credKeys rt _).1 h.keyed
  obtain ⟨ps, hps⟩ := scan_exists raw.toList
  rw [credRefsIn_of_scan hps] at hk
  have hmem := scan_onlySegments hps (hs raw hraw) _ hk
  rw [String.toList_ofList] at hmem
  exact ht.not_mem (by decide) hmem

/-- One call of `bearerRuntime`, then the revocation of its credential. -/
def revokedBearer : List (RuntimeAction plainExprApi Bytes Ipv4) :=
  [.resolveClient 0 () (bearerAnswer "t1") 0, .invoke 0, .finish 0 mixedAnswer,
    .insert 0 6 (.stored _ _), .credentialRevoked "oauth" "api" (.stored _ _)]

/-- The scanner takes the target for `api}`, and the client stays. -/
theorem revocationReaches_bearer :
    (∃ c e b, bearerMachine.exec revokedBearer ([], bearerMachine.init) = some c ∧
      c.2.registry.clients.lookup (digestCredentialBundle plainHash
        [("url", "https://api.test/hook"), ("hdr:authorization", "Bearer t1")]) = some e ∧
      c.2.bundles e.client.ptr = some (.resolveClient, b) ∧ b.credKeys = [("oauth", "api\x7d")] ∧
      NoBuildInFlight (S := plainSecurityApi) c.2) ∧
    ¬ ∀ raw ∈ bearerRuntime.rawValues, ∀ p t, Segment p t raw →
      RevocationReaches plainUrlApi plainHeaderApi plainSecurityApi plainHash bearerRuntime
        (String.ofList p) (String.ofList t) := by
  refine ⟨⟨_, _, _, rfl, rfl, rfl, rfl, ?_⟩, ?_⟩
  · intro i digest credKeys phase hc
    cases i with
    | zero =>
      cases hc
      exact ⟨nofun, nofun⟩
    | succ i =>
      have hnone : none = some (⟨digest, credKeys, phase⟩ : Call Bytes (Client Ipv4)) := hc
      cases hnone
  intro h
  have hseg : Segment "oauth".toList "api".toList "Bearer ${cred://oauth/api}" :=
    ⟨⟨by decide, List.all_eq_true.1 rfl⟩, ⟨by decide, List.all_eq_true.1 rfl⟩, "Bearer ".toList,
      [], rfl⟩
  have hkey := (h _ (List.mem_cons_of_mem _ List.mem_cons_self) _ _ hseg).keyed
  revert hkey
  decide

end NetCore
