import NetCore.RegistryRuns

/-!
# Where calls and entries come from

A call keeps its digest and credential keys for ever, and its phase once it has
ended (`moves_call`).  An entry is the entry of the step before with a new
stamp, or was inserted by this step (`moves_entry`).  From these two a run
traces every client it holds or returned to the call that built it
(`run_traced`).
-/

namespace NetCore

open HashTable StepSystem

variable {D C : Type}

/-- The call a step belongs to. -/
def Action.caller : Action D C → Option CallId
  | .lookup i _ _ _ | .invoke i | .finish i _ | .insert i _ _ | .abandon i => some i
  | _ => none

def Phase.ended : Phase C → Bool
  | .returned _ | .abandoned => true
  | _ => false

/-- Setting the phase of one call keeps the digest and keys of all, and the
phase of every call that had ended. -/
theorem update_phase {calls : CallId → Option (Call D C)} {i j : CallId} {c : Call D C}
    {digest : D} {credKeys : List (String × String)} {p p' : Phase C}
    (hj : calls j = some ⟨digest, credKeys, p⟩) (hp : p.ended = false) (hi : calls i = some c) :
    ∃ q, Function.update calls j (some ⟨digest, credKeys, p'⟩) i = some { c with phase := q } ∧
      (c.phase.ended = true → q = c.phase) := by
  by_cases hij : i = j
  · subst hij
    rw [hj, Option.some.injEq] at hi
    subst hi
    refine ⟨p', by rw [Function.update_self], ?_⟩
    intro hend
    rw [hp] at hend
    cases hend
  · exact ⟨c.phase, by rw [Function.update_of_ne hij, hi], fun _ => rfl⟩

theorem update_new {calls : CallId → Option (Call D C)} {i j : CallId} {c c' : Call D C}
    (hj : calls j = none) (hi : calls i = some c) :
    Function.update calls j (some c') i = some c := by
  have hij : i ≠ j := by
    intro e
    rw [e, hj] at hi
    cases hi
  rw [Function.update_of_ne hij, hi]

theorem update_some {calls : CallId → Option (Call D C)} {i j : CallId} {c c' : Call D C}
    (h : Function.update calls j (some c) i = some c') :
    (i = j ∧ c' = c) ∨ (i ≠ j ∧ calls i = some c') := by
  by_cases hij : i = j
  · subst hij
    rw [Function.update_self, Option.some.injEq] at h
    exact Or.inl ⟨rfl, h.symm⟩
  · rw [Function.update_of_ne hij] at h
    exact Or.inr ⟨hij, h⟩

variable [DecidableEq D] {config : ClientRegistryConfig} {s t : Registry D C} {a : Action D C}
  {o : Shown D C}

/-- **A call keeps its digest and keys**, and its phase once it has ended. -/
theorem moves_call (h : Moves config s a t o) {i : CallId} {c : Call D C}
    (hi : s.calls i = some c) :
    ∃ q, t.calls i = some { c with phase := q } ∧ (c.phase.ended = true → q = c.phase) := by
  cases h with
  | hit hc hl => exact ⟨c.phase, update_new hc hi, fun _ => rfl⟩
  | miss hc hl => exact ⟨c.phase, update_new hc hi, fun _ => rfl⟩
  | invoked hc => exact update_phase hc rfl hi
  | built hc => exact update_phase hc rfl hi
  | failed hc => exact update_phase hc rfl hi
  | lostRace hc hl => exact update_phase hc rfl hi
  | inserted hc hl hlru => exact update_phase hc rfl hi
  | abandoned hc hp =>
    rcases hp with rfl | ⟨client, rfl⟩
    · exact update_phase hc rfl hi
    · exact update_phase hc rfl hi
  | evictFor => exact ⟨c.phase, hi, fun _ => rfl⟩
  | evictForSecret => exact ⟨c.phase, hi, fun _ => rfl⟩
  | sweepIdle => exact ⟨c.phase, hi, fun _ => rfl⟩

/-- A call was there before with its digest and keys, or starts in this step. -/
theorem moves_call_origin (h : Moves config s a t o) {i : CallId} {c : Call D C}
    (ht : t.calls i = some c) :
    (∃ phase, s.calls i = some { c with phase := phase }) ∨
      (s.calls i = none ∧ ∃ elapsed, a = .lookup i c.digest c.credKeys elapsed) := by
  cases h with
  | hit hc hl | miss hc hl =>
    rcases update_some ht with ⟨rfl, rfl⟩ | ⟨-, hcall⟩
    · exact Or.inr ⟨hc, _, rfl⟩
    · exact Or.inl ⟨c.phase, hcall⟩
  | invoked hc | built hc | failed hc | lostRace hc hl | inserted hc hl hlru | abandoned hc hp =>
    rcases update_some ht with ⟨rfl, rfl⟩ | ⟨-, hcall⟩
    · exact Or.inl ⟨_, hc⟩
    · exact Or.inl ⟨c.phase, hcall⟩
  | evictFor | evictForSecret | sweepIdle => exact Or.inl ⟨c.phase, ht⟩

/-- A step moves its own call only. -/
theorem moves_others (h : Moves config s a t o) {i : CallId} (ha : a.caller ≠ some i) :
    t.calls i = s.calls i := by
  cases h with
  | hit hc hl | miss hc hl | invoked hc | built hc | failed hc | lostRace hc hl
  | inserted hc hl hlru | abandoned hc hp =>
    apply Function.update_of_ne
    intro e
    exact ha (by rw [e]; rfl)
  | evictFor | evictForSecret | sweepIdle => rfl

theorem lookup_insertEvicting {clients : Clients D C} {digest d : D} {entry e : ClientEntry C}
    {lru : Option D} (h : (insertEvicting clients digest entry lru).lookup d = some e) :
    (d = digest ∧ e = entry) ∨ (d ≠ digest ∧ clients.lookup d = some e) := by
  have hins : (clients.insert digest entry).lookup d = some e := by
    cases lru with
    | none => exact h
    | some oldest =>
      simp only [insertEvicting, lookup_erase_eq] at h
      split at h
      · cases h
      · exact h
  rw [lookup_insert_eq] at hins
  by_cases hd : d = digest
  · rw [if_pos hd, Option.some.injEq] at hins
    exact Or.inl ⟨hd, hins.symm⟩
  · rw [if_neg hd] at hins
    exact Or.inr ⟨hd, hins⟩

/-- `e` is `e₀` but for its stamp. -/
def SameClient (e e₀ : ClientEntry C) : Prop := e.client = e₀.client ∧ e.credKeys = e₀.credKeys

omit [DecidableEq D] in
theorem SameClient.refl (e : ClientEntry C) : SameClient e e := ⟨rfl, rfl⟩

/-- Renewing the stamp of an entry changes no client and no keys. -/
theorem lookup_restamp {clients : Clients D C} {digest d : D} {entry e : ClientEntry C} {n : Nat}
    (hl : clients.lookup digest = some entry)
    (h : (clients.insert digest { entry with lastUsed := n }).lookup d = some e) :
    ∃ e₀, clients.lookup d = some e₀ ∧ SameClient e e₀ := by
  rw [lookup_insert_eq] at h
  by_cases hd : d = digest
  · rw [if_pos hd, Option.some.injEq] at h
    exact ⟨entry, by rw [hd, hl], by rw [← h]; exact ⟨rfl, rfl⟩⟩
  · rw [if_neg hd] at h
    exact ⟨e, h, .refl e⟩

/-- **An entry was there before, or this step inserted it.** -/
theorem moves_entry (h : Moves config s a t o) {d : D} {e : ClientEntry C}
    (ht : t.clients.lookup d = some e) :
    (∃ e₀, s.clients.lookup d = some e₀ ∧ SameClient e e₀) ∨
      (∃ i elapsed it lru, a = .insert i elapsed it ∧ o = .inserted e.client lru ∧
        s.calls i = some ⟨d, e.credKeys, .built e.client⟩ ∧ s.clients.lookup d = none) := by
  cases h with
  | hit hc hl => exact Or.inl (lookup_restamp hl ht)
  | miss hc hl => exact Or.inl ⟨e, ht, .refl e⟩
  | invoked hc => exact Or.inl ⟨e, ht, .refl e⟩
  | built hc => exact Or.inl ⟨e, ht, .refl e⟩
  | failed hc => exact Or.inl ⟨e, ht, .refl e⟩
  | lostRace hc hl => exact Or.inl (lookup_restamp hl ht)
  | @inserted i digest credKeys client elapsed it lru hc hl hlru =>
    rcases lookup_insertEvicting ht with ⟨rfl, rfl⟩ | ⟨hd, he⟩
    · exact Or.inr ⟨i, elapsed, it, lru, rfl, rfl, hc, hl⟩
    · exact Or.inl ⟨e, he, .refl e⟩
  | abandoned hc hp => exact Or.inl ⟨e, ht, .refl e⟩
  | @evictFor p t' it =>
    rw [lookup_evictFor] at ht
    exact Or.inl ⟨e, ht.1, .refl e⟩
  | evictForSecret => cases ht
  | @sweepIdle elapsed it =>
    rw [lookup_sweepIdle] at ht
    exact Or.inl ⟨e, ht.1, .refl e⟩

/-! ## Tracing clients to their builds -/

/-- The client was built, in this run, by the call its pointer names, and that
call passed these arguments. -/
def BuiltBy (hist : List (RegistryStep D C)) (s : Registry D C) (digest : D)
    (credKeys : List (String × String)) (client : Arc C) : Prop :=
  (∃ phase, s.calls client.ptr = some ⟨digest, credKeys, phase⟩) ∧
    ∃ st ∈ hist, st.label = .finish client.ptr (.ok client.val)

theorem BuiltBy.step (h : Moves config s a t o) {hist : List (RegistryStep D C)} {digest : D}
    {credKeys : List (String × String)} {client : Arc C} {st : RegistryStep D C}
    (hb : BuiltBy hist s digest credKeys client) : BuiltBy (st :: hist) t digest credKeys client := by
  obtain ⟨⟨phase, hc⟩, st', hm, hl⟩ := hb
  obtain ⟨q, hq, -⟩ := moves_call h hc
  exact ⟨⟨q, hq⟩, st', List.mem_cons_of_mem _ hm, hl⟩

/-- Every client in sight is traced to its build. -/
structure Traced (hist : List (RegistryStep D C)) (s : Registry D C) : Prop where
  built : ∀ {i digest credKeys client},
    s.calls i = some ⟨digest, credKeys, .built client⟩ →
      client.ptr = i ∧ BuiltBy hist s digest credKeys client
  cached : ∀ {digest e}, s.clients.lookup digest = some e →
    BuiltBy hist s digest e.credKeys e.client
  returned : ∀ {i digest credKeys client},
    s.calls i = some ⟨digest, credKeys, .returned (.ok client)⟩ →
      ∃ credKeys', BuiltBy hist s digest credKeys' client

/-- A call that holds a finished build held it before, or finished it now. -/
theorem moves_built (h : Moves config s a t o) {i : CallId} {digest : D}
    {credKeys : List (String × String)} {client : Arc C}
    (ht : t.calls i = some ⟨digest, credKeys, .built client⟩) :
    s.calls i = some ⟨digest, credKeys, .built client⟩ ∨
      (a = .finish i (.ok client.val) ∧ client.ptr = i) := by
  cases h with
  | hit hc hl | miss hc hl | invoked hc | failed hc | lostRace hc hl | inserted hc hl hlru
  | abandoned hc hp =>
    rcases update_some ht with ⟨-, hcall⟩ | ⟨-, hcall⟩
    · cases hcall
    · exact Or.inl hcall
  | built hc =>
    rcases update_some ht with ⟨rfl, hcall⟩ | ⟨-, hcall⟩
    · cases hcall
      exact Or.inr ⟨rfl, rfl⟩
    · exact Or.inl hcall
  | evictFor | evictForSecret | sweepIdle => exact Or.inl ht

/-- A call that returned a client returned it before, found it in the map, or
built it. -/
theorem moves_returned (h : Moves config s a t o) {i : CallId} {digest : D}
    {credKeys : List (String × String)} {client : Arc C}
    (ht : t.calls i = some ⟨digest, credKeys, .returned (.ok client)⟩) :
    s.calls i = some ⟨digest, credKeys, .returned (.ok client)⟩ ∨
      (∃ e, s.clients.lookup digest = some e ∧ e.client = client) ∨
      s.calls i = some ⟨digest, credKeys, .built client⟩ := by
  cases h with
  | miss hc hl | invoked hc | built hc | failed hc | abandoned hc hp =>
    rcases update_some ht with ⟨-, hcall⟩ | ⟨-, hcall⟩
    · cases hcall
    · exact Or.inl hcall
  | hit hc hl | lostRace hc hl =>
    rcases update_some ht with ⟨rfl, hcall⟩ | ⟨-, hcall⟩
    · cases hcall
      exact Or.inr (Or.inl ⟨_, hl, rfl⟩)
    · exact Or.inl hcall
  | inserted hc hl hlru =>
    rcases update_some ht with ⟨rfl, hcall⟩ | ⟨-, hcall⟩
    · cases hcall
      exact Or.inr (Or.inr hc)
    · exact Or.inl hcall
  | evictFor | evictForSecret | sweepIdle => exact Or.inl ht

theorem Traced.step {hist : List (RegistryStep D C)} (h : Moves config s a t o)
    (ht : Traced hist s) : Traced (⟨s, a, o, t⟩ :: hist) t where
  built := by
    intro i digest credKeys client hi
    rcases moves_built h hi with hs | ⟨rfl, rfl⟩
    · exact ⟨(ht.built hs).1, (ht.built hs).2.step h⟩
    · exact ⟨rfl, ⟨_, hi⟩, _, List.mem_cons_self, rfl⟩
  cached := by
    intro digest e he
    rcases moves_entry h he with ⟨e₀, he₀, hclient, hkeys⟩ | ⟨i, elapsed, it, lru, -, -, hc, -⟩
    · rw [hclient, hkeys]
      exact (ht.cached he₀).step h
    · exact (ht.built hc).2.step h
  returned := by
    intro i digest credKeys client hi
    rcases moves_returned h hi with hs | ⟨e, he, rfl⟩ | hs
    · obtain ⟨keys, hb⟩ := ht.returned hs
      exact ⟨keys, hb.step h⟩
    · exact ⟨_, (ht.cached he).step h⟩
    · exact ⟨_, (ht.built hs).2.step h⟩

/-- **Every client in a run is traced to its build.** -/
theorem run_traced {hist : List (RegistryStep D C)} (h : (registryMachine D C config).Run hist s) :
    Traced hist s := by
  refine h.inv (P := Traced) ?_ ?_
  · exact ⟨(nomatch ·), (nomatch ·), (nomatch ·)⟩
  · intro hist s a o t _ ht hn
    exact ht.step (registryNext_moves hn)

end NetCore
