import NetCore.RegistryOrigin

/-!
# One live client per digest

The steps that remove a digest cut a run into intervals.  Within one interval
the digest has at most one client: the call that inserts it names it, every
other call that returns in the interval returns it, and a call that fails or is
abandoned does not touch the map.
-/

namespace NetCore

open HashTable StepSystem

variable {D C : Type} [DecidableEq D]

/-- The step caches the client of its own call under `d`. -/
def Inserts (d : D) (st : RegistryStep D C) (client : Arc C) (credKeys : List (String × String)) :
    Prop :=
  ∃ i elapsed it lru, st.label = .insert i elapsed it ∧ st.out = .inserted client lru ∧
    st.pre.calls i = some ⟨d, credKeys, .built client⟩ ∧ client.ptr = i

/-- The step is the second section of a call for `d` that lost the race. -/
def LosesRace (d : D) (st : RegistryStep D C) (found : Arc C) : Prop :=
  ∃ i elapsed it credKeys client, st.label = .insert i elapsed it ∧ st.out = .lostRace found ∧
    st.pre.calls i = some ⟨d, credKeys, .built client⟩

/-- The step is the last section of a call for `d` that returns `client`. -/
def ReturnsOk (d : D) (st : RegistryStep D C) (client : Arc C) : Prop :=
  (∃ i credKeys elapsed, st.label = .lookup i d credKeys elapsed ∧ st.out = .hit client) ∨
    LosesRace d st client ∨ ∃ credKeys, Inserts d st client credKeys

/-- `d` leaves the map in this step: it was there, or this very step inserted it. -/
def Removes (d : D) (st : RegistryStep D C) : Prop :=
  ((∃ e, st.pre.clients.lookup d = some e) ∨ ∃ client credKeys, Inserts d st client credKeys) ∧
    st.post.clients.lookup d = none

/-- The build of call `i` fails, or its future is dropped. -/
def Fails (i : CallId) (st : RegistryStep D C) : Prop :=
  (∃ e, st.label = .finish i (.error e)) ∨ st.label = .abandon i

/-- The entry of `d`, stamp aside. -/
def Caches (s : Registry D C) (d : D) (client : Arc C) (credKeys : List (String × String)) : Prop :=
  ∃ e, s.clients.lookup d = some e ∧ e.client = client ∧ e.credKeys = credKeys

variable {config : ClientRegistryConfig} {s t : Registry D C} {a : Action D C} {o : Shown D C}

theorem Caches.unique {d : D} {client client' : Arc C} {keys keys' : List (String × String)}
    (h : Caches s d client keys) (h' : Caches s d client' keys') :
    client = client' ∧ keys = keys' := by
  obtain ⟨e, he, rfl, rfl⟩ := h
  obtain ⟨e', he', rfl, rfl⟩ := h'
  rw [he, Option.some.injEq] at he'
  subst he'
  exact ⟨rfl, rfl⟩

/-! ## One step -/

/-- An entry stays what it is until it is removed. -/
theorem Caches.kept (h : Moves config s a t o) {d : D} {client : Arc C}
    {credKeys : List (String × String)} (hc : Caches s d client credKeys)
    (hr : ¬ Removes d ⟨s, a, o, t⟩) : Caches t d client credKeys := by
  obtain ⟨e₀, he₀, rfl, rfl⟩ := hc
  cases ht : t.clients.lookup d with
  | none => exact absurd ⟨Or.inl ⟨e₀, he₀⟩, ht⟩ hr
  | some e =>
    rcases moves_entry h ht with ⟨e₁, he₁, hclient, hkeys⟩ | ⟨-, -, -, -, -, -, -, hn⟩
    · rw [he₀, Option.some.injEq] at he₁
      subst he₁
      exact ⟨e, ht, hclient, hkeys⟩
    · rw [he₀] at hn
      cases hn

/-- What a returning step returns is in the map before it, or inserted by it. -/
theorem moves_returnsOk (h : Moves config s a t o) {d : D} {client : Arc C}
    (hr : ReturnsOk d ⟨s, a, o, t⟩ client) :
    (∃ keys, Caches s d client keys) ∨ ∃ keys, Inserts d ⟨s, a, o, t⟩ client keys := by
  rcases hr with ⟨i, keys, elapsed, ha, ho⟩ | ⟨i, elapsed, it, keys, own, ha, ho, hc⟩ | ⟨keys, hi⟩
  · cases ha
    cases ho
    cases h with
    | hit hc hl => exact Or.inl ⟨_, _, hl, rfl, rfl⟩
  · cases ha
    cases ho
    cases h with
    | lostRace hc' hl =>
      have hd := hc.symm.trans hc'
      cases hd
      exact Or.inl ⟨_, _, hl, rfl, rfl⟩
  · exact Or.inr ⟨keys, hi⟩

/-- An insertion finds no entry, and leaves its own unless it removes it again. -/
theorem moves_inserts (h : Moves config s a t o) {d : D} {client : Arc C}
    {keys : List (String × String)} (hi : Inserts d ⟨s, a, o, t⟩ client keys) :
    s.clients.lookup d = none ∧ (¬ Removes d ⟨s, a, o, t⟩ → Caches t d client keys) := by
  obtain ⟨i, elapsed, it, lru, ha, ho, hc, hptr⟩ := id hi
  cases ha
  cases ho
  cases h with
  | @inserted i digest credKeys client elapsed it lru hc' hl hlru =>
    have hd := hc.symm.trans hc'
    cases hd
    refine ⟨hl, fun hr => ?_⟩
    cases ht : (insertEvicting s.clients d ⟨client, keys, nowMillis elapsed⟩ lru).lookup d with
    | none => exact absurd ⟨Or.inr ⟨client, keys, hi⟩, ht⟩ hr
    | some e =>
      rcases lookup_insertEvicting ht with ⟨-, rfl⟩ | ⟨hne, -⟩
      · exact ⟨_, ht, rfl, rfl⟩
      · exact absurd rfl hne

theorem moves_inserts_returned (h : Moves config s a t o) {d : D} {client : Arc C}
    {keys : List (String × String)} (hi : Inserts d ⟨s, a, o, t⟩ client keys) :
    t.calls client.ptr = some ⟨d, keys, .returned (.ok client)⟩ := by
  obtain ⟨i, elapsed, it, lru, ha, ho, hc, hptr⟩ := hi
  cases ha
  cases ho
  cases h with
  | inserted hc' hl hlru =>
    have hd := hc.symm.trans hc'
    cases hd
    rw [hptr]
    exact Function.update_self _ _ _

/-- A call that changes the map returns `Ok`. -/
theorem moves_touches (h : Moves config s a t o) {i : CallId} (ha : a.caller = some i) :
    t.clients = s.clients ∨
      ∃ digest keys client, t.calls i = some ⟨digest, keys, .returned (.ok client)⟩ := by
  cases h with
  | hit hc hl | lostRace hc hl | inserted hc hl hlru =>
    cases ha
    exact Or.inr ⟨_, _, _, Function.update_self _ _ _⟩
  | miss hc hl | invoked hc | built hc | failed hc | abandoned hc hp => exact Or.inl rfl
  | evictFor | evictForSecret | sweepIdle => cases ha

theorem moves_fails (h : Moves config s a t o) {i : CallId} (hf : Fails i ⟨s, a, o, t⟩) :
    ∃ digest keys phase, t.calls i = some ⟨digest, keys, phase⟩ ∧ phase.ended = true ∧
      ∀ client, phase ≠ .returned (.ok client) := by
  rcases hf with ⟨e, ha⟩ | ha
  · cases ha
    cases h with
    | failed hc => exact ⟨_, _, _, Function.update_self _ _ _, rfl, by intro client hp; cases hp⟩
  · cases ha
    cases h with
    | abandoned hc hp =>
      exact ⟨_, _, _, Function.update_self _ _ _, rfl, by intro client hp; cases hp⟩

/-! ## A whole run -/

variable {hist : List (RegistryStep D C)}

/-- A call that has ended stays as it ended. -/
theorem run_ended (h : (registryMachine D C config).Run hist s) {st : RegistryStep D C}
    (hm : st ∈ hist) {i : CallId} {c : Call D C} (hc : st.post.calls i = some c)
    (he : c.phase.ended = true) : s.calls i = some c := by
  obtain ⟨newer, older, rfl⟩ := List.append_of_mem hm
  refine h.persist (P := fun s => s.calls i = some c) hc ?_
  intro x _ hn hx
  obtain ⟨q, hq, hend⟩ := moves_call (registryNext_moves hn) hx
  rw [hq, hend he]

/-- An entry goes back to the step that inserted it, with no removal in between. -/
theorem run_caches (h : (registryMachine D C config).Run hist s) {d : D} {client : Arc C}
    {keys : List (String × String)} (hc : Caches s d client keys) :
    ∃ mid ins rest, hist = mid ++ ins :: rest ∧ Inserts d ins client keys ∧
      ∀ x ∈ mid ++ [ins], ¬ Removes d x := by
  revert hc
  refine h.inv (P := fun hist s => Caches s d client keys → ∃ mid ins rest,
    hist = mid ++ ins :: rest ∧ Inserts d ins client keys ∧ ∀ x ∈ mid ++ [ins], ¬ Removes d x) ?_ ?_
  · rintro ⟨e, he, -⟩
    cases he
  · intro hist s a o t hr ih hn hc
    have hmove := registryNext_moves hn
    have hkept : ¬ Removes d ⟨s, a, o, t⟩ := by
      rintro ⟨-, hnone⟩
      obtain ⟨e, he, -⟩ := hc
      rw [he] at hnone
      cases hnone
    obtain ⟨e, he, rfl, rfl⟩ := hc
    rcases moves_entry hmove he with ⟨e₀, he₀, hclient, hkeys⟩ | ⟨i, elapsed, it, lru, ha, ho, hcall, -⟩
    · obtain ⟨mid, ins, rest, rfl, hins, hmid⟩ := ih ⟨e₀, he₀, hclient.symm, hkeys.symm⟩
      refine ⟨⟨s, a, o, t⟩ :: mid, ins, rest, rfl, hins, ?_⟩
      intro x hx
      rcases List.mem_cons.1 hx with rfl | hx
      · exact hkept
      · exact hmid x hx
    · refine ⟨[], ⟨s, a, o, t⟩, hist, rfl,
        ⟨i, elapsed, it, lru, ha, ho, hcall, ((run_traced hr).built hcall).1⟩, ?_⟩
      intro x hx
      rw [List.mem_singleton.1 hx]
      exact hkept

/-- Two calls for `d` that return in one interval return the same client. -/
theorem run_same_client (h : (registryMachine D C config).Run hist s) {d : D}
    {newer mid older : List (RegistryStep D C)} {st₁ st₂ : RegistryStep D C} {c₁ c₂ : Arc C}
    (hist_eq : hist = newer ++ st₂ :: (mid ++ st₁ :: older)) (h₁ : ReturnsOk d st₁ c₁)
    (h₂ : ReturnsOk d st₂ c₂) (hint : ∀ x ∈ mid ++ [st₁], ¬ Removes d x) : c₁ = c₂ := by
  subst hist_eq
  obtain ⟨hr₂, hn₂⟩ := h.split
  have hkept₁ := hint st₁ (List.mem_append_right _ (List.mem_singleton_self _))
  -- after the earlier call its client is cached
  have hpost : ∃ keys, Caches st₁.post d c₁ keys := by
    have hm₁ := registryNext_moves hr₂.split.2
    rcases moves_returnsOk hm₁ h₁ with ⟨keys, hc⟩ | ⟨keys, hi⟩
    · exact ⟨keys, hc.kept hm₁ hkept₁⟩
    · exact ⟨keys, (moves_inserts hm₁ hi).2 hkept₁⟩
  obtain ⟨keys, hpost⟩ := hpost
  -- and still is when the later one takes the lock
  have hpre : Caches st₂.pre d c₁ keys := by
    refine hr₂.persist (P := fun s => Caches s d c₁ keys) hpost ?_
    intro x hx hn hc
    exact hc.kept (registryNext_moves hn) (hint x (List.mem_append_left _ hx))
  have hm₂ := registryNext_moves hn₂
  rcases moves_returnsOk hm₂ h₂ with ⟨keys', hc⟩ | ⟨keys', hi⟩
  · exact (hpre.unique hc).1
  · obtain ⟨e, he, -⟩ := hpre
    rw [(moves_inserts hm₂ hi).1] at he
    cases he

/-- A returned client was inserted in the interval, by this step or an earlier one. -/
theorem run_returned_inserted (h : (registryMachine D C config).Run hist s) {d : D}
    {newer older : List (RegistryStep D C)} {st : RegistryStep D C} {client : Arc C}
    (hist_eq : hist = newer ++ st :: older) (hr : ReturnsOk d st client) :
    ∃ keys, (Inserts d st client keys ∧ (¬ Removes d st → Caches st.post d client keys)) ∨
      (Caches st.pre d client keys ∧ ∃ mid ins rest, older = mid ++ ins :: rest ∧
        Inserts d ins client keys ∧ ∀ x ∈ mid ++ [ins], ¬ Removes d x) := by
  subst hist_eq
  obtain ⟨hrun, hn⟩ := h.split
  have hmove := registryNext_moves hn
  rcases moves_returnsOk hmove hr with ⟨keys, hc⟩ | ⟨keys, hi⟩
  · exact ⟨keys, Or.inr ⟨hc, run_caches hrun hc⟩⟩
  · exact ⟨keys, Or.inl ⟨hi, (moves_inserts hmove hi).2⟩⟩

/-- A lost race renews the stamp of the entry it finds, and nothing else. -/
theorem moves_losesRace (h : Moves config s a t o) {d : D} {found : Arc C}
    (hl : LosesRace d ⟨s, a, o, t⟩ found) :
    ∃ e n, s.clients.lookup d = some e ∧ e.client = found ∧
      t.clients = s.clients.insert d { e with lastUsed := n } := by
  obtain ⟨i, elapsed, it, keys, own, ha, ho, hc⟩ := hl
  cases ha
  cases ho
  cases h with
  | lostRace hc' hl =>
    have hd := hc.symm.trans hc'
    cases hd
    exact ⟨_, _, hl, rfl, rfl⟩

/-- A call that fails or is abandoned returns no client. -/
theorem run_failed_not_ok (h : (registryMachine D C config).Run hist s) {i : CallId}
    {stf : RegistryStep D C} (hmf : stf ∈ hist) (hf : Fails i stf) {st : RegistryStep D C}
    (hm : st ∈ hist) {digest : D} {keys : List (String × String)} {client : Arc C} :
    st.post.calls i ≠ some ⟨digest, keys, .returned (.ok client)⟩ := by
  intro hok
  obtain ⟨digest', keys', phase, hc, hend, hne⟩ :=
    moves_fails (registryNext_moves (h.step_of_mem hmf)) hf
  have hend₁ := run_ended h hm hok rfl
  have hend₂ := run_ended h hmf hc hend
  rw [hend₁] at hend₂
  cases hend₂
  exact absurd rfl (hne client)

/-- A call that fails or is abandoned never changes the map. -/
theorem run_failed_untouched (h : (registryMachine D C config).Run hist s) {i : CallId}
    {stf : RegistryStep D C} (hmf : stf ∈ hist) (hf : Fails i stf) {st : RegistryStep D C}
    (hm : st ∈ hist) (hi : st.label.caller = some i) : st.post.clients = st.pre.clients := by
  rcases moves_touches (registryNext_moves (h.step_of_mem hm)) hi with
    heq | ⟨digest, keys, client, hok⟩
  · exact heq
  · exact absurd hok (run_failed_not_ok h hmf hf hm)

/-- The map never holds a client of a call that fails or is abandoned. -/
theorem run_failed_uncached (h : (registryMachine D C config).Run hist s) {i : CallId}
    {stf : RegistryStep D C} (hmf : stf ∈ hist) (hf : Fails i stf) {d : D} {e : ClientEntry C}
    (he : s.clients.lookup d = some e) : e.client.ptr ≠ i := by
  intro hptr
  obtain ⟨mid, ins, rest, heq, hins, -⟩ := run_caches h ⟨e, he, rfl, rfl⟩
  have hm : ins ∈ hist := by
    rw [heq]
    exact List.mem_append_right _ List.mem_cons_self
  have hok := moves_inserts_returned (registryNext_moves (h.step_of_mem hm)) hins
  rw [hptr] at hok
  exact run_failed_not_ok h hmf hf hm hok

/-- **One live client per digest.**  Between two removals of `d` all calls for
`d` return the client inserted there, which keeps the keys of the call that
built it; a lost race changes a stamp only, a failed or abandoned call nothing. -/
theorem one_live_client (config : ClientRegistryConfig)
    (h : (registryMachine D C config).Run hist s) (d : D) :
    (∀ newer st₂ mid st₁ older c₁ c₂, hist = newer ++ st₂ :: (mid ++ st₁ :: older) →
      ReturnsOk d st₁ c₁ → ReturnsOk d st₂ c₂ → (∀ x ∈ mid ++ [st₁], ¬ Removes d x) → c₁ = c₂) ∧
    (∀ newer st older client, hist = newer ++ st :: older → ReturnsOk d st client →
      ∃ keys, (Inserts d st client keys ∧ (¬ Removes d st → Caches st.post d client keys)) ∨
        (Caches st.pre d client keys ∧ ∃ mid ins rest, older = mid ++ ins :: rest ∧
          Inserts d ins client keys ∧ ∀ x ∈ mid ++ [ins], ¬ Removes d x)) ∧
    (∀ st ∈ hist, ∀ found, LosesRace d st found →
      ∃ e n, st.pre.clients.lookup d = some e ∧ e.client = found ∧
        st.post.clients = st.pre.clients.insert d { e with lastUsed := n }) ∧
    (∀ i, (∃ st ∈ hist, Fails i st) → ∀ st ∈ hist, st.label.caller = some i →
      st.post.clients = st.pre.clients) := by
  refine ⟨?_, ?_, ?_, ?_⟩
  · intro newer st₂ mid st₁ older c₁ c₂ hist_eq h₁ h₂ hint
    exact run_same_client h hist_eq h₁ h₂ hint
  · intro newer st older client hist_eq hr
    exact run_returned_inserted h hist_eq hr
  · intro st hm found hl
    exact moves_losesRace (registryNext_moves (h.step_of_mem hm)) hl
  · rintro i ⟨stf, hmf, hf⟩ st hm hi
    exact run_failed_untouched h hmf hf hm hi

/-- Two cold calls race for digest 7, then a third one finds the winner's client. -/
def coldRace : List (Action Nat Nat) :=
  [.lookup 0 7 [("p", "t")] 0, .lookup 1 7 [("p", "t")] 0, .invoke 0, .invoke 1,
    .finish 1 (.ok 71), .finish 0 (.ok 70), .insert 1 5 (.stored _ _), .insert 0 6 (.stored _ _),
    .lookup 2 7 [("p", "t")] 9]

theorem one_live_client_coldRace :
    ∃ c, (registryMachine Nat Nat .default).exec coldRace ([], Registry.new) = some c ∧
      (∀ newer st₂ mid st₁ older c₁ c₂, c.1 = newer ++ st₂ :: (mid ++ st₁ :: older) →
        ReturnsOk 7 st₁ c₁ → ReturnsOk 7 st₂ c₂ → (∀ x ∈ mid ++ [st₁], ¬ Removes 7 x) →
        c₁ = c₂) ∧
      ∀ st ∈ c.1, ∀ found, LosesRace 7 st found →
        ∃ e n, st.pre.clients.lookup 7 = some e ∧ e.client = found ∧
          st.post.clients = st.pre.clients.insert 7 { e with lastUsed := n } := by
  obtain ⟨c, hc⟩ : ∃ c, (registryMachine Nat Nat .default).exec coldRace ([], Registry.new) =
      some c := Option.isSome_iff_exists.1 rfl
  have h := one_live_client .default (Machine.exec_init hc) 7
  exact ⟨c, hc, h.1, h.2.2.1⟩

end NetCore
