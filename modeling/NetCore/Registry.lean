import NetCore.Lib.Table
import NetCore.Types

/-!
# The client registry: what each lock section does

`ClientRegistry` keeps its clients in a hash map behind one mutex.
`get_or_build` takes the lock twice: `getOrBuildLookup` is the section before
the build, `getOrBuildInsert` the one after it; the lock is free in between.
`evictFor`, `evictForSecret` and `sweepIdle` are one section each.  A section
reads the clock once (`elapsed`, the milliseconds since the registry's epoch) and
walks the map in an order the map chooses (`it`).
-/

namespace NetCore

open HashTable

abbrev CallId := Nat

/-- An `Arc` to a client; the pointer is the call whose build allocated it, so two
`Arc`s are clones of each other when they are equal. -/
structure Arc (C : Type) where
  ptr : CallId
  val : C
deriving DecidableEq, Repr

structure ClientEntry (C : Type) where
  client : Arc C
  credKeys : List (String × String)
  lastUsed : Nat
deriving DecidableEq, Repr

structure ClientRegistryConfig where
  maxEntries : Nat
  idleEviction : Duration

def ClientRegistryConfig.default : ClientRegistryConfig where
  maxEntries := 256
  idleEviction := .fromSecs (15 * 60)

/-- The map inside the mutex. -/
abbrev Clients (D C : Type) := Table D (ClientEntry C)

def nowMillis (elapsed : Nat) : Nat := asU64 elapsed

variable {D C : Type} [DecidableEq D]

/-- `get_or_build` up to the release of the lock: the cached client, with its
recency stamp renewed. -/
def getOrBuildLookup (clients : Clients D C) (digest : D) (elapsed : Nat) :
    Option (Arc C × Clients D C) :=
  match clients.lookup digest with
  | some entry =>
    some (entry.client, clients.insert digest { entry with lastUsed := nowMillis elapsed })
  | none => none

/-- How `get_or_build` ends once its build has succeeded. -/
inductive Inserted (D C : Type)
  /-- another caller's entry is there; its client is returned -/
  | lostRace (client : Arc C) (clients : Clients D C)
  /-- the own client is cached and returned; `lru` is the entry evicted for it -/
  | own (clients : Clients D C) (lru : Option D)

/-- `get_or_build` from the second acquisition of the lock. -/
def getOrBuildInsert (config : ClientRegistryConfig) (it : IterOrder D (ClientEntry C))
    (clients : Clients D C) (digest : D) (credKeys : List (String × String)) (client : Arc C)
    (elapsed : Nat) : Inserted D C :=
  match clients.lookup digest with
  | some entry =>
    .lostRace entry.client (clients.insert digest { entry with lastUsed := nowMillis elapsed })
  | none =>
    let clients := clients.insert digest ⟨client, credKeys, nowMillis elapsed⟩
    if length clients > config.maxEntries then
      match minByKey it ClientEntry.lastUsed clients with
      | some oldest => .own (clients.erase oldest) (some oldest)
      | none => .own clients none
    else .own clients none

/-- The credential keys hold `(pluginId, target)`. -/
def keyedBy (pluginId target : String) (credKeys : List (String × String)) : Bool :=
  credKeys.any fun k => k.1 == pluginId && k.2 == target

/-- `evict_for`: the map without the entries keyed by `(pluginId, target)`, and
how many there were. -/
def evictFor (it : IterOrder D (ClientEntry C)) (clients : Clients D C)
    (pluginId target : String) : Clients D C × Nat :=
  let toDrop := keysWhere it (fun e => keyedBy pluginId target e.credKeys) clients
  (eraseAll clients toDrop, toDrop.length)

omit [DecidableEq D] in
/-- `evict_for_secret`; the reference is not looked at. -/
def evictForSecret (clients : Clients D C) (_secretRef : String) : Clients D C × Nat :=
  (∅, length clients)

def sweepIdle (config : ClientRegistryConfig) (it : IterOrder D (ClientEntry C))
    (clients : Clients D C) (elapsed : Nat) : Clients D C × Nat :=
  let now := nowMillis elapsed
  let thresholdMs := asU64 config.idleEviction.asMillis
  let toDrop := keysWhere it (fun e => now - e.lastUsed > thresholdMs) clients
  (eraseAll clients toDrop, toDrop.length)

/-! ## What the evictions keep -/

theorem keyedBy_iff (p t : String) (keys : List (String × String)) :
    keyedBy p t keys = true ↔ (p, t) ∈ keys := by
  unfold keyedBy
  rw [List.any_eq_true]
  constructor
  · rintro ⟨⟨p', t'⟩, hm, hk⟩
    simp only [Bool.and_eq_true, beq_iff_eq] at hk
    obtain ⟨rfl, rfl⟩ := hk
    exact hm
  · intro hm
    exact ⟨(p, t), hm, by simp⟩

theorem lookup_evictFor (it : IterOrder D (ClientEntry C)) (clients : Clients D C)
    (p t : String) (d : D) (e : ClientEntry C) :
    (evictFor it clients p t).1.lookup d = some e ↔
      clients.lookup d = some e ∧ (p, t) ∉ e.credKeys := by
  have h := lookup_eraseAll_keysWhere it (fun e : ClientEntry C => keyedBy p t e.credKeys)
    clients d e
  rw [← Bool.not_eq_true, keyedBy_iff] at h
  exact h

theorem length_evictFor (it : IterOrder D (ClientEntry C)) (clients : Clients D C)
    (p t : String) :
    length (evictFor it clients p t).1 + (evictFor it clients p t).2 = length clients :=
  length_eraseAll_keysWhere it _ clients

theorem lookup_sweepIdle (config : ClientRegistryConfig) (it : IterOrder D (ClientEntry C))
    (clients : Clients D C) (elapsed : Nat) (d : D) (e : ClientEntry C) :
    (sweepIdle config it clients elapsed).1.lookup d = some e ↔
      clients.lookup d = some e ∧
        nowMillis elapsed - e.lastUsed ≤ asU64 config.idleEviction.asMillis := by
  have h := lookup_eraseAll_keysWhere it
    (fun e : ClientEntry C => decide
      (nowMillis elapsed - e.lastUsed > asU64 config.idleEviction.asMillis)) clients d e
  rw [decide_eq_false_iff_not, Nat.not_lt] at h
  exact h

theorem length_sweepIdle (config : ClientRegistryConfig) (it : IterOrder D (ClientEntry C))
    (clients : Clients D C) (elapsed : Nat) :
    length (sweepIdle config it clients elapsed).1 + (sweepIdle config it clients elapsed).2 =
      length clients :=
  length_eraseAll_keysWhere it _ clients

end NetCore
