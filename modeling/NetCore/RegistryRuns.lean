import Mathlib.Algebra.GroupWithZero.Nat
import Mathlib.Logic.Function.Basic
import NetCore.Lib.Machine
import NetCore.Registry

/-!
# Interleaved calls on one registry

Any number of `get_or_build` calls run against one registry, together with
evictions and sweeps.  A step is one lock section, or one of the three things a
call does without the lock: invoke its build closure, finish the build, be
abandoned (its future dropped at an await).  Between two steps the lock is free.

    idle --lookup--> returned | missed --invoke--> building --finish--> built | returned
                                                          built --insert--> returned

`Moves` lists what each step can do, guards included; every later proof about
runs splits on it and never unfolds `registryNext`.
-/

namespace NetCore

open HashTable StepSystem

variable {D C : Type}

inductive Phase (C : Type)
  | missed
  | building
  | built (client : Arc C)
  | returned (result : Except String (Arc C))
  | abandoned

/-- A `get_or_build` call that has taken the lock at least once. -/
structure Call (D C : Type) where
  digest : D
  credKeys : List (String × String)
  phase : Phase C

structure Registry (D C : Type) where
  clients : Clients D C
  calls : CallId → Option (Call D C)

def Registry.new : Registry D C := ⟨∅, fun _ => none⟩

inductive Action (D C : Type)
  | lookup (i : CallId) (digest : D) (credKeys : List (String × String)) (elapsed : Nat)
  | invoke (i : CallId)
  | finish (i : CallId) (outcome : Except String C)
  | insert (i : CallId) (elapsed : Nat) (it : IterOrder D (ClientEntry C))
  | abandon (i : CallId)
  | evictFor (pluginId target : String) (it : IterOrder D (ClientEntry C))
  | evictForSecret (secretRef : String)
  | sweepIdle (elapsed : Nat) (it : IterOrder D (ClientEntry C))

/-- What a step shows: what the section found, and what its call returns. -/
inductive Shown (D C : Type)
  | hit (client : Arc C)
  | miss
  | invoked
  | built
  | failed (error : String)
  | lostRace (client : Arc C)
  | inserted (client : Arc C) (lru : Option D)
  | abandoned
  | evicted (count : Nat)

def Registry.setCall (s : Registry D C) (i : CallId) (c : Call D C) (p : Phase C) :
    CallId → Option (Call D C) :=
  Function.update s.calls i (some { c with phase := p })

variable [DecidableEq D]

def registryNext (config : ClientRegistryConfig) (s : Registry D C) :
    Action D C → Option (Registry D C × Shown D C)
  | .lookup i digest credKeys elapsed =>
    match s.calls i with
    | some _ => none
    | none =>
      match getOrBuildLookup s.clients digest elapsed with
      | some (client, clients) =>
        some (⟨clients, s.setCall i ⟨digest, credKeys, .missed⟩ (.returned (.ok client))⟩,
          .hit client)
      | none => some (⟨s.clients, s.setCall i ⟨digest, credKeys, .missed⟩ .missed⟩, .miss)
  | .invoke i =>
    match s.calls i with
    | some c =>
      match c.phase with
      | .missed => some (⟨s.clients, s.setCall i c .building⟩, .invoked)
      | _ => none
    | none => none
  | .finish i outcome =>
    match s.calls i with
    | some c =>
      match c.phase, outcome with
      | .building, .ok client => some (⟨s.clients, s.setCall i c (.built ⟨i, client⟩)⟩, .built)
      | .building, .error e => some (⟨s.clients, s.setCall i c (.returned (.error e))⟩, .failed e)
      | _, _ => none
    | none => none
  | .insert i elapsed it =>
    match s.calls i with
    | some c =>
      match c.phase with
      | .built client =>
        match getOrBuildInsert config it s.clients c.digest c.credKeys client elapsed with
        | .lostRace found clients =>
          some (⟨clients, s.setCall i c (.returned (.ok found))⟩, .lostRace found)
        | .own clients lru =>
          some (⟨clients, s.setCall i c (.returned (.ok client))⟩, .inserted client lru)
      | _ => none
    | none => none
  | .abandon i =>
    match s.calls i with
    | some c =>
      match c.phase with
      | .building | .built _ => some (⟨s.clients, s.setCall i c .abandoned⟩, .abandoned)
      | _ => none
    | none => none
  | .evictFor pluginId target it =>
    some (⟨(evictFor it s.clients pluginId target).1, s.calls⟩,
      .evicted (evictFor it s.clients pluginId target).2)
  | .evictForSecret secretRef =>
    some (⟨(evictForSecret s.clients secretRef).1, s.calls⟩,
      .evicted (evictForSecret s.clients secretRef).2)
  | .sweepIdle elapsed it =>
    some (⟨(sweepIdle config it s.clients elapsed).1, s.calls⟩,
      .evicted (sweepIdle config it s.clients elapsed).2)

def registryMachine (D C : Type) [DecidableEq D] (config : ClientRegistryConfig) :
    Machine (Registry D C) (Action D C) (Shown D C) :=
  ⟨Registry.new, registryNext config⟩

/-! ## What a step does -/

/-- The map after inserting an entry and evicting `lru` for it. -/
def insertEvicting (clients : Clients D C) (digest : D) (entry : ClientEntry C) :
    Option D → Clients D C
  | none => clients.insert digest entry
  | some oldest => (clients.insert digest entry).erase oldest

/-- The entry evicted by an insertion that leaves `clients` behind. -/
def LruChoice (config : ClientRegistryConfig) (it : IterOrder D (ClientEntry C))
    (clients : Clients D C) : Option D → Prop
  | none => length clients ≤ config.maxEntries
  | some oldest => config.maxEntries < length clients ∧
      minByKey it ClientEntry.lastUsed clients = some oldest

inductive Moves (config : ClientRegistryConfig) (s : Registry D C) :
    Action D C → Registry D C → Shown D C → Prop
  | hit {i : CallId} {digest : D} {credKeys : List (String × String)} {elapsed : Nat}
      {entry : ClientEntry C} : s.calls i = none → s.clients.lookup digest = some entry →
      Moves config s (.lookup i digest credKeys elapsed)
        ⟨s.clients.insert digest { entry with lastUsed := nowMillis elapsed },
          Function.update s.calls i (some ⟨digest, credKeys, .returned (.ok entry.client)⟩)⟩
        (.hit entry.client)
  | miss {i : CallId} {digest : D} {credKeys : List (String × String)} {elapsed : Nat} :
      s.calls i = none → s.clients.lookup digest = none →
      Moves config s (.lookup i digest credKeys elapsed)
        ⟨s.clients, Function.update s.calls i (some ⟨digest, credKeys, .missed⟩)⟩ .miss
  | invoked {i : CallId} {digest : D} {credKeys : List (String × String)} :
      s.calls i = some ⟨digest, credKeys, .missed⟩ →
      Moves config s (.invoke i)
        ⟨s.clients, Function.update s.calls i (some ⟨digest, credKeys, .building⟩)⟩ .invoked
  | built {i : CallId} {digest : D} {credKeys : List (String × String)} {client : C} :
      s.calls i = some ⟨digest, credKeys, .building⟩ →
      Moves config s (.finish i (.ok client))
        ⟨s.clients, Function.update s.calls i (some ⟨digest, credKeys, .built ⟨i, client⟩⟩)⟩ .built
  | failed {i : CallId} {digest : D} {credKeys : List (String × String)} {e : String} :
      s.calls i = some ⟨digest, credKeys, .building⟩ →
      Moves config s (.finish i (.error e))
        ⟨s.clients, Function.update s.calls i (some ⟨digest, credKeys, .returned (.error e)⟩)⟩
        (.failed e)
  | lostRace {i : CallId} {digest : D} {credKeys : List (String × String)} {client : Arc C}
      {elapsed : Nat} {it : IterOrder D (ClientEntry C)} {entry : ClientEntry C} :
      s.calls i = some ⟨digest, credKeys, .built client⟩ → s.clients.lookup digest = some entry →
      Moves config s (.insert i elapsed it)
        ⟨s.clients.insert digest { entry with lastUsed := nowMillis elapsed },
          Function.update s.calls i (some ⟨digest, credKeys, .returned (.ok entry.client)⟩)⟩
        (.lostRace entry.client)
  | inserted {i : CallId} {digest : D} {credKeys : List (String × String)} {client : Arc C}
      {elapsed : Nat} {it : IterOrder D (ClientEntry C)} {lru : Option D} :
      s.calls i = some ⟨digest, credKeys, .built client⟩ → s.clients.lookup digest = none →
      LruChoice config it (s.clients.insert digest ⟨client, credKeys, nowMillis elapsed⟩) lru →
      Moves config s (.insert i elapsed it)
        ⟨insertEvicting s.clients digest ⟨client, credKeys, nowMillis elapsed⟩ lru,
          Function.update s.calls i (some ⟨digest, credKeys, .returned (.ok client)⟩)⟩
        (.inserted client lru)
  | abandoned {i : CallId} {digest : D} {credKeys : List (String × String)} {phase : Phase C} :
      s.calls i = some ⟨digest, credKeys, phase⟩ →
      (phase = .building ∨ ∃ client, phase = .built client) →
      Moves config s (.abandon i)
        ⟨s.clients, Function.update s.calls i (some ⟨digest, credKeys, .abandoned⟩)⟩ .abandoned
  | evictFor {p t : String} {it : IterOrder D (ClientEntry C)} :
      Moves config s (.evictFor p t it) ⟨(evictFor it s.clients p t).1, s.calls⟩
        (.evicted (evictFor it s.clients p t).2)
  | evictForSecret {r : String} :
      Moves config s (.evictForSecret r) ⟨∅, s.calls⟩ (.evicted (length s.clients))
  | sweepIdle {elapsed : Nat} {it : IterOrder D (ClientEntry C)} :
      Moves config s (.sweepIdle elapsed it) ⟨(sweepIdle config it s.clients elapsed).1, s.calls⟩
        (.evicted (sweepIdle config it s.clients elapsed).2)

/-- What the second section of `get_or_build` does to the map. -/
theorem getOrBuildInsert_own {config : ClientRegistryConfig} {it : IterOrder D (ClientEntry C)}
    {clients clients' : Clients D C} {digest : D} {credKeys : List (String × String)}
    {client : Arc C} {elapsed : Nat} {lru : Option D}
    (h : getOrBuildInsert config it clients digest credKeys client elapsed = .own clients' lru) :
    clients.lookup digest = none ∧
      LruChoice config it (clients.insert digest ⟨client, credKeys, nowMillis elapsed⟩) lru ∧
      clients' = insertEvicting clients digest ⟨client, credKeys, nowMillis elapsed⟩ lru := by
  unfold getOrBuildInsert at h
  split at h
  · cases h
  · next hl =>
    refine ⟨hl, ?_⟩
    simp only at h
    split at h
    · next hfull =>
      split at h
      · next oldest ho =>
        cases h
        exact ⟨⟨hfull, ho⟩, rfl⟩
      · next ho =>
        -- the map holds the new entry, so a least entry exists
        have := minByKey_none ho
        rw [length_insert_of_lookup_none _ hl] at this
        omega
    · next hroom =>
      cases h
      exact ⟨Nat.not_lt.1 hroom, rfl⟩

theorem getOrBuildInsert_lostRace {config : ClientRegistryConfig}
    {it : IterOrder D (ClientEntry C)} {clients clients' : Clients D C} {digest : D}
    {credKeys : List (String × String)} {client found : Arc C} {elapsed : Nat}
    (h : getOrBuildInsert config it clients digest credKeys client elapsed =
      .lostRace found clients') :
    ∃ entry, clients.lookup digest = some entry ∧ found = entry.client ∧
      clients' = clients.insert digest { entry with lastUsed := nowMillis elapsed } := by
  unfold getOrBuildInsert at h
  split at h
  · next entry hl =>
    cases h
    exact ⟨entry, hl, rfl, rfl⟩
  · simp only at h
    split at h
    · split at h <;> cases h
    · cases h

/-- **Inversion.**  A step of the registry is one of the moves. -/
theorem registryNext_moves {config : ClientRegistryConfig} {s t : Registry D C} {a : Action D C}
    {o : Shown D C} (h : registryNext config s a = some (t, o)) : Moves config s a t o := by
  cases a with
  | lookup i digest credKeys elapsed =>
    simp only [registryNext, getOrBuildLookup] at h
    split at h
    · cases h
    · next hc =>
      cases hl : s.clients.lookup digest with
      | some entry => rw [hl] at h; cases h; exact .hit hc hl
      | none => rw [hl] at h; cases h; exact .miss hc hl
  | invoke i =>
    simp only [registryNext] at h
    split at h
    · next c hc =>
      obtain ⟨digest, credKeys, phase⟩ := c
      cases phase with
      | missed => cases h; exact .invoked hc
      | building => cases h
      | built _ => cases h
      | returned _ => cases h
      | abandoned => cases h
    · cases h
  | finish i outcome =>
    simp only [registryNext] at h
    split at h
    · next c hc =>
      obtain ⟨digest, credKeys, phase⟩ := c
      cases phase with
      | building =>
        cases outcome with
        | ok client => cases h; exact .built hc
        | error e => cases h; exact .failed hc
      | missed => cases h
      | built _ => cases h
      | returned _ => cases h
      | abandoned => cases h
    · cases h
  | insert i elapsed it =>
    simp only [registryNext] at h
    split at h
    · next c hc =>
      obtain ⟨digest, credKeys, phase⟩ := c
      cases phase with
      | built client =>
        simp only at h
        split at h
        · next found clients hi =>
          cases h
          obtain ⟨entry, hl, rfl, rfl⟩ := getOrBuildInsert_lostRace hi
          exact .lostRace hc hl
        · next clients lru hi =>
          cases h
          obtain ⟨hl, hlru, rfl⟩ := getOrBuildInsert_own hi
          exact .inserted hc hl hlru
      | missed => cases h
      | building => cases h
      | returned _ => cases h
      | abandoned => cases h
    · cases h
  | abandon i =>
    simp only [registryNext] at h
    split at h
    · next c hc =>
      obtain ⟨digest, credKeys, phase⟩ := c
      cases phase with
      | building => cases h; exact .abandoned hc (Or.inl rfl)
      | built client => cases h; exact .abandoned hc (Or.inr ⟨client, rfl⟩)
      | missed => cases h
      | returned _ => cases h
      | abandoned => cases h
    · cases h
  | evictFor p t it => cases h; exact .evictFor
  | evictForSecret r => cases h; exact .evictForSecret
  | sweepIdle elapsed it => cases h; exact .sweepIdle

/-! ## Capacity and accounting -/

abbrev RegistryStep (D C : Type) := Step (Registry D C) (Action D C) (Shown D C)

def Shown.insertions : Shown D C → Nat
  | .inserted _ _ => 1
  | _ => 0

def Shown.lruRemovals : Shown D C → Nat
  | .inserted _ (some _) => 1
  | _ => 0

/-- The count an eviction or a sweep returns. -/
def Shown.evictions : Shown D C → Nat
  | .evicted count => count
  | _ => 0

def insertions (hist : List (RegistryStep D C)) : Nat := (hist.map (·.out.insertions)).sum

def lruRemovals (hist : List (RegistryStep D C)) : Nat := (hist.map (·.out.lruRemovals)).sum

def evictions (hist : List (RegistryStep D C)) : Nat := (hist.map (·.out.evictions)).sum

/-- An insertion makes room for the entry it adds when the map is at its cap. -/
theorem length_insertEvicting {config : ClientRegistryConfig} {it : IterOrder D (ClientEntry C)}
    {clients : Clients D C} {digest : D} {entry : ClientEntry C} {lru : Option D}
    (hl : clients.lookup digest = none) (hcap : length clients ≤ config.maxEntries)
    (h : LruChoice config it (clients.insert digest entry) lru) (client : Arc C) :
    length (insertEvicting clients digest entry lru) ≤ config.maxEntries ∧
      length (insertEvicting clients digest entry lru) +
        (Shown.inserted client lru).lruRemovals = length clients + 1 := by
  have hlen := length_insert_of_lookup_none entry hl
  cases lru with
  | none =>
    have hroom : length (clients.insert digest entry) ≤ config.maxEntries := h
    exact ⟨hroom, hlen⟩
  | some oldest =>
    obtain ⟨v, hv, -⟩ := minByKey_some h.2
    have herase := length_erase_of_mem (mem_of_lookup hv)
    have hsome : (Shown.inserted client (some oldest)).lruRemovals = 1 := rfl
    simp only [insertEvicting, hsome]
    omega

/-- One step keeps the cap, and every entry that leaves is counted once. -/
theorem moves_accounting {config : ClientRegistryConfig} {s t : Registry D C} {a : Action D C}
    {o : Shown D C} (h : Moves config s a t o) (hcap : length s.clients ≤ config.maxEntries) :
    length t.clients ≤ config.maxEntries ∧
      length t.clients + o.lruRemovals + o.evictions = length s.clients + o.insertions := by
  cases h with
  | hit hc hl => rw [length_insert_of_lookup _ hl]; exact ⟨hcap, rfl⟩
  | miss hc hl => exact ⟨hcap, rfl⟩
  | invoked hc => exact ⟨hcap, rfl⟩
  | built hc => exact ⟨hcap, rfl⟩
  | failed hc => exact ⟨hcap, rfl⟩
  | lostRace hc hl => rw [length_insert_of_lookup _ hl]; exact ⟨hcap, rfl⟩
  | @inserted i digest credKeys client elapsed it lru hc hl hlru =>
    obtain ⟨h1, h2⟩ := length_insertEvicting hl hcap hlru client
    exact ⟨h1, h2⟩
  | abandoned hc hp => exact ⟨hcap, rfl⟩
  | @evictFor p t it =>
    have := length_evictFor it s.clients p t
    simp only [Shown.lruRemovals, Shown.evictions, Shown.insertions]
    omega
  | evictForSecret =>
    simp only [Shown.lruRemovals, Shown.evictions, Shown.insertions, length_empty]
    omega
  | @sweepIdle elapsed it =>
    have := length_sweepIdle config it s.clients elapsed
    simp only [Shown.lruRemovals, Shown.evictions, Shown.insertions]
    omega

/-- **Capacity and accounting.**  Whenever the lock is free the map holds at most
`maxEntries` entries, and every insertion so far is a cached entry, an LRU
removal, or counted by exactly one eviction or sweep. -/
theorem registry_accounting (config : ClientRegistryConfig) {hist : List (RegistryStep D C)}
    {s : Registry D C} (h : (registryMachine D C config).Run hist s) :
    length s.clients ≤ config.maxEntries ∧
      insertions hist = length s.clients + lruRemovals hist + evictions hist := by
  refine h.inv (P := fun hist s => length s.clients ≤ config.maxEntries ∧
    insertions hist = length s.clients + lruRemovals hist + evictions hist) ?_ ?_
  · exact ⟨Nat.zero_le _, rfl⟩
  · intro hist s a o t _ hp hn
    obtain ⟨hcap, hsum⟩ := hp
    obtain ⟨hcap', hstep⟩ := moves_accounting (registryNext_moves hn) hcap
    refine ⟨hcap', ?_⟩
    simp only [insertions, lruRemovals, evictions, List.map_cons, List.sum_cons] at hsum ⊢
    omega

/-- Two insertions into a registry of one entry, then an eviction. -/
def oneEntryRun : List (Action Nat Nat) :=
  [.lookup 0 7 [("p", "t")] 0, .invoke 0, .finish 0 (.ok 70), .insert 0 1 (.stored _ _),
    .lookup 1 8 [("p", "t")] 2, .invoke 1, .finish 1 (.ok 80), .insert 1 3 (.stored _ _),
    .evictFor "p" "t" (.stored _ _)]

theorem registry_accounting_oneEntryRun :
    ∃ c, (registryMachine Nat Nat ⟨1, ⟨900, 0, by decide, by decide⟩⟩).exec oneEntryRun
        ([], Registry.new) = some c ∧
      length c.2.clients ≤ 1 ∧
        insertions c.1 = length c.2.clients + lruRemovals c.1 + evictions c.1 := by
  obtain ⟨c, hc⟩ : ∃ c, (registryMachine Nat Nat ⟨1, ⟨900, 0, by decide, by decide⟩⟩).exec
      oneEntryRun ([], Registry.new) = some c := Option.isSome_iff_exists.1 rfl
  exact ⟨c, hc, registry_accounting _ (Machine.exec_init hc)⟩

end NetCore
