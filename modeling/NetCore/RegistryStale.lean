import NetCore.RegistryLive

/-!
# Evictions and the open window

An eviction takes the lock once and empties the map of what it matches.  A
client still being built is not in the map yet: its call inserts it later,
built from the credentials the eviction was about.  `noStaleClient_iff` says
that this insertion is the only way a stale client gets into a run, and
`noStaleClient_openWindow` is the shortest run with one.
-/

namespace NetCore

open HashTable StepSystem

variable {D C : Type} [DecidableEq D]

/-- The step is an eviction that is about a client with these keys. -/
def Evicts (st : RegistryStep D C) (credKeys : List (String × String)) : Prop :=
  (∃ p t it, st.label = .evictFor p t it ∧ (p, t) ∈ credKeys) ∨ ∃ r, st.label = .evictForSecret r

/-- Call `i` invoked its build, and a matching eviction ran after that. -/
def Outdated (hist : List (RegistryStep D C)) (i : CallId) (credKeys : List (String × String)) :
    Prop :=
  ∃ newer ev older, hist = newer ++ ev :: older ∧ Evicts ev credKeys ∧
    ∃ inv ∈ older, inv.label = .invoke i

/-- In every state of the run no cached client is outdated, and no step returns
an outdated client from the map. -/
def NoStaleClient : List (RegistryStep D C) → Prop :=
  Along fun older st =>
    (∀ d e, st.post.clients.lookup d = some e → ∀ c, st.post.calls e.client.ptr = some c →
      ¬ Outdated (st :: older) e.client.ptr c.credKeys) ∧
    ∀ client, (st.out = .hit client ∨ st.out = .lostRace client) →
      ∀ c, st.pre.calls client.ptr = some c → ¬ Outdated older client.ptr c.credKeys

/-- The LRU eviction that follows the insertion leaves the new entry alone. -/
def KeepsOwn (config : ClientRegistryConfig) (it : IterOrder D (ClientEntry C))
    (clients : Clients D C) (digest : D) (entry : ClientEntry C) : Prop :=
  length (clients.insert digest entry) ≤ config.maxEntries ∨
    minByKey it ClientEntry.lastUsed (clients.insert digest entry) ≠ some digest

/-- If the step is a second section about to cache its client, no matching
eviction ran since that client's build was invoked. -/
def InsertsFresh (config : ClientRegistryConfig) (older : List (RegistryStep D C))
    (st : RegistryStep D C) : Prop :=
  ∀ i elapsed it d credKeys client, st.label = .insert i elapsed it →
    st.pre.calls i = some ⟨d, credKeys, .built client⟩ → st.pre.clients.lookup d = none →
    KeepsOwn config it st.pre.clients d ⟨client, credKeys, nowMillis elapsed⟩ →
    ¬ Outdated older i credKeys

variable {config : ClientRegistryConfig} {s t : Registry D C} {a : Action D C} {o : Shown D C}
  {hist : List (RegistryStep D C)}

omit [DecidableEq D] in
theorem outdated_cons {st : RegistryStep D C} {i : CallId} {credKeys : List (String × String)} :
    Outdated (st :: hist) i credKeys ↔
      Outdated hist i credKeys ∨ (Evicts st credKeys ∧ ∃ inv ∈ hist, inv.label = .invoke i) := by
  constructor
  · rintro ⟨newer, ev, older, heq, hev, hinv⟩
    cases newer with
    | nil =>
      obtain ⟨rfl, rfl⟩ := List.cons.inj heq
      exact Or.inr ⟨hev, hinv⟩
    | cons x newer =>
      obtain ⟨rfl, rfl⟩ := List.cons.inj heq
      exact Or.inl ⟨newer, ev, older, rfl, hev, hinv⟩
  · rintro (⟨newer, ev, older, rfl, hev, hinv⟩ | ⟨hev, hinv⟩)
    · exact ⟨st :: newer, ev, older, rfl, hev, hinv⟩
    · exact ⟨[], st, hist, rfl, hev, hinv⟩

/-- An entry that is still there after an eviction was not the eviction's. -/
theorem moves_not_evicts (h : Moves config s a t o) {d : D} {e : ClientEntry C}
    (he : t.clients.lookup d = some e) : ¬ Evicts ⟨s, a, o, t⟩ e.credKeys := by
  rintro (⟨p, t', it, ha, hm⟩ | ⟨r, ha⟩)
  · cases ha
    cases h with
    | evictFor =>
      rw [lookup_evictFor] at he
      exact he.2 hm
  · cases ha
    cases h with
    | evictForSecret => cases he

/-- The own entry is in the map after the section exactly if it is kept. -/
theorem lookup_own {it : IterOrder D (ClientEntry C)} {clients : Clients D C} {d : D}
    {entry : ClientEntry C} {lru : Option D}
    (h : LruChoice config it (clients.insert d entry) lru) :
    (insertEvicting clients d entry lru).lookup d = some entry ↔
      KeepsOwn config it clients d entry := by
  unfold KeepsOwn
  cases lru with
  | none => exact ⟨fun _ => Or.inl h, fun _ => AList.lookup_insert _⟩
  | some oldest =>
    obtain ⟨hfull, hmin⟩ := h
    simp only [insertEvicting]
    rw [lookup_erase_eq, AList.lookup_insert, hmin]
    constructor
    · intro hl
      refine Or.inr fun hd => ?_
      rw [if_pos (Option.some.inj hd).symm] at hl
      cases hl
    · rintro (hroom | hne)
      · omega
      · rw [if_neg fun hd => hne (by rw [hd])]

/-- A run that inserts fresh clients only caches fresh clients only. -/
theorem run_fresh (h : (registryMachine D C config).Run hist s)
    (hfresh : Along (InsertsFresh config) hist) {d : D} {e : ClientEntry C}
    (he : s.clients.lookup d = some e) : ¬ Outdated hist e.client.ptr e.credKeys := by
  refine h.inv_along (P := fun hist s => ∀ d e, s.clients.lookup d = some e →
    ¬ Outdated hist e.client.ptr e.credKeys) ?_ ?_ hfresh d e he
  · intro d e he
    cases he
  · intro hist s a o t hr hst ih hn d e he
    have hmove := registryNext_moves hn
    rw [outdated_cons]
    rintro (hout | ⟨hev, -⟩)
    · rcases moves_entry hmove he with
        ⟨e₀, he₀, hclient, hkeys⟩ | ⟨i, elapsed, it, lru, ha, ho, hc, hl⟩
      · rw [hclient, hkeys] at hout
        exact ih d e₀ he₀ hout
      · -- the entry is the step's own, so the condition on the step is about it
        cases ha
        cases hmove with
        | lostRace hc' hl' => cases ho
        | inserted hc' hl' hlru =>
          have hd := hc.symm.trans hc'
          cases hd
          obtain ⟨-, heq⟩ := (lookup_insertEvicting he).resolve_right fun hne => hne.1 rfl
          have hkeep := (lookup_own hlru).1 (he.trans (congrArg some heq))
          rw [((run_traced hr).built hc).1] at hout
          exact hst _ _ _ _ _ _ rfl hc hl hkeep hout
    · exact moves_not_evicts hmove he hev

/-- A client returned from the map was cached in the state before. -/
theorem moves_from_map (h : Moves config s a t o) {client : Arc C}
    (ho : o = .hit client ∨ o = .lostRace client) :
    ∃ d e, s.clients.lookup d = some e ∧ e.client = client := by
  rcases ho with rfl | rfl
  · cases h with
    | hit hc hl => exact ⟨_, _, hl, rfl⟩
  · cases h with
    | lostRace hc hl => exact ⟨_, _, hl, rfl⟩

/-- A second section that caches an outdated client leaves it in the map. -/
theorem moves_caches_outdated (h : Moves config s a t o) (htr : Traced hist s) {i : CallId}
    {elapsed : Nat} {it : IterOrder D (ClientEntry C)} {d : D} {keys : List (String × String)}
    {client : Arc C} (ha : a = .insert i elapsed it)
    (hc : s.calls i = some ⟨d, keys, .built client⟩) (hl : s.clients.lookup d = none)
    (hkeep : KeepsOwn config it s.clients d ⟨client, keys, nowMillis elapsed⟩) :
    client.ptr = i ∧ ∃ e, t.clients.lookup d = some e ∧ e.client = client ∧
      ∃ phase, t.calls i = some ⟨d, keys, phase⟩ := by
  cases ha
  cases h with
  | lostRace hc' hl' =>
    have hd := hc.symm.trans hc'
    cases hd
    rw [hl] at hl'
    cases hl'
  | inserted hc' hl' hlru =>
    have hd := hc.symm.trans hc'
    cases hd
    exact ⟨(htr.built hc).1, _, (lookup_own hlru).2 hkeep, rfl, _, Function.update_self _ _ _⟩

/-- **When an eviction is not undone.**  A run keeps no stale client, and
returns none from the map, exactly if every second section that caches its
client does so before any matching eviction that followed its build's start. -/
theorem noStaleClient_iff (config : ClientRegistryConfig)
    (h : (registryMachine D C config).Run hist s) :
    NoStaleClient hist ↔ Along (InsertsFresh config) hist := by
  constructor
  · rintro hns newer st older rfl i elapsed it d keys client ha hc hl hkeep hout
    obtain ⟨hr, hn⟩ := h.split
    obtain ⟨rfl, e, he, rfl, phase, hcall⟩ :=
      moves_caches_outdated (registryNext_moves hn) (run_traced hr) ha hc hl hkeep
    exact (hns newer st older rfl).1 d e he _ hcall (outdated_cons.2 (Or.inl hout))
  · refine h.along ?_
    intro older st hrun hfresh
    obtain ⟨hr, hn, -⟩ := Machine.run_cons.1 hrun
    refine ⟨?_, ?_⟩
    · intro d e he c hc
      obtain ⟨phase, hcall⟩ := ((run_traced hrun).cached he).1
      rw [hcall, Option.some.injEq] at hc
      subst hc
      exact run_fresh hrun hfresh he
    · intro client hret c hc
      obtain ⟨d, e, he, rfl⟩ := moves_from_map (registryNext_moves hn) hret
      obtain ⟨phase, hcall⟩ := ((run_traced hr).cached he).1
      rw [hcall, Option.some.injEq] at hc
      subst hc
      exact run_fresh hr (along_cons.1 hfresh).2 he

/-- The credential is revoked while its client is being built. -/
def openWindow : List (Action Nat Nat) :=
  [.lookup 0 7 [("p", "t")] 0, .invoke 0, .evictFor "p" "t" (.stored _ _), .finish 0 (.ok 70),
    .insert 0 1 (.stored _ _)]

theorem noStaleClient_openWindow :
    ∃ c, (registryMachine Nat Nat .default).exec openWindow ([], Registry.new) = some c ∧
      ¬ NoStaleClient c.1 := by
  refine ⟨_, rfl, ?_⟩
  intro h
  refine (h [] _ _ rfl).1 7 _ rfl _ rfl ?_
  exact ⟨[_, _], _, [_, _], rfl, Or.inl ⟨"p", "t", .stored _ _, rfl, List.mem_singleton_self _⟩,
    _, List.mem_cons_self, rfl⟩

theorem noStaleClient_iff_openWindow :
    ∃ c, (registryMachine Nat Nat .default).exec openWindow ([], Registry.new) = some c ∧
      (NoStaleClient c.1 ↔ Along (InsertsFresh .default) c.1) := by
  obtain ⟨c, hc⟩ : ∃ c, (registryMachine Nat Nat .default).exec openWindow ([], Registry.new) =
      some c := Option.isSome_iff_exists.1 rfl
  exact ⟨c, hc, noStaleClient_iff .default (Machine.exec_init hc)⟩

end NetCore
