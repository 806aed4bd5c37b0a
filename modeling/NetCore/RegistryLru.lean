import NetCore.Lib.Lru
import NetCore.RegistryRecency

/-!
# The registry is a least recently used cache

Where no two calls return in the same millisecond the stamps order the entries,
and the map is a `Lru.Cache`: a call that returns a client puts its digest in
front, an insertion past the cap drops the last entry, a revocation filters, a
rotation clears, and a sweep keeps a front part.  `lru_refines` replays the
steps of a run on such a cache.  Without removals the digests cached are the
`maxEntries` that were returned last, whatever the builds and races in between
(`cached_most_recent`), so a larger registry caches all that a smaller one does.
-/

namespace NetCore

open HashTable StepSystem Lru

variable {D C : Type}

/-- An entry, stamp aside. -/
structure Held (C : Type) where
  client : Arc C
  credKeys : List (String × String)

def ClientEntry.held (e : ClientEntry C) : Held C := ⟨e.client, e.credKeys⟩

/-- The reading at which the step returns a client. -/
def returnReading (st : RegistryStep D C) : Option Nat :=
  match st.out.returned with
  | some _ => st.label.reading
  | none => none

/-- Of two calls that return a client, the later one does so at a later reading. -/
def ReturnsLater (hist : List (RegistryStep D C)) : Prop :=
  (hist.filterMap returnReading).Pairwise (· > ·)

variable [DecidableEq D]

def keysAt (clients : Clients D C) (d : D) : List (String × String) :=
  match clients.lookup d with
  | some entry => entry.credKeys
  | none => []

/-- The step, as a cache sees it. -/
def lruOp (st : RegistryStep D C) : Option (Op D (Held C)) :=
  match st.label, st.out with
  | .lookup _ d _ _, .hit client => some (.use d ⟨client, keysAt st.pre.clients d⟩)
  | .insert i _ _, .lostRace client =>
    (st.pre.calls i).map fun c => .use c.digest ⟨client, keysAt st.pre.clients c.digest⟩
  | .insert i _ _, .inserted client _ =>
    (st.pre.calls i).map fun c => .use c.digest ⟨client, c.credKeys⟩
  | .evictFor p t _, _ => some (.keep fun held => !keyedBy p t held.credKeys)
  | .evictForSecret _, _ => some (.expire 0)
  | .sweepIdle _ _, _ => some (.expire (length st.post.clients))
  | _, _ => none

def lruAfter (config : ClientRegistryConfig) (hist : List (RegistryStep D C)) :
    Cache D (Held C) config.maxEntries :=
  Cache.after config.maxEntries (hist.filterMap lruOp)

/-- The map has the entries of the cache, stamped in the cache's order. -/
def Represents {cap : Nat} (c : Cache D (Held C) cap) (clients : Clients D C) : Prop :=
  ∃ es, Recent ClientEntry.lastUsed clients es ∧
    c.entries = es.map fun e => (e.1, e.2.held)

variable {config : ClientRegistryConfig} {s t : Registry D C} {a : Action D C} {o : Shown D C}
  {hist : List (RegistryStep D C)}

/-! ## One operation -/

omit [DecidableEq D] in
theorem map_without [DecidableEq D] (d : D) (es : List (D × ClientEntry C)) :
    (without d es).map (fun e => (e.1, e.2.held)) =
      without d (es.map fun e => (e.1, e.2.held)) := by
  unfold without
  rw [List.filter_map]
  rfl

/-- A stamp above all others: the digest goes in front, and what does not fit goes. -/
theorem Represents.use {cap : Nat} {c : Cache D (Held C) cap} {clients clients' : Clients D C}
    (h : Represents c clients) (d : D) (entry : ClientEntry C)
    (hlater : ∀ d' e', clients.lookup d' = some e' → e'.lastUsed < entry.lastUsed)
    (hfits : ∀ es, Recent ClientEntry.lastUsed (clients.insert d entry) es →
      Recent ClientEntry.lastUsed clients' (es.take cap)) :
    Represents (c.use d entry.held) clients' := by
  obtain ⟨es, hes, hc⟩ := h
  have hfront := hes.insert d fun e he => hlater e.1 e.2 ((hes.lookup e.1 e.2).2 he)
  refine ⟨_, hfits _ hfront, ?_⟩
  show ((d, entry.held) :: without d c.entries).take cap = _
  rw [hc, List.map_take, List.map_cons, map_without]

/-- Renewing a stamp: everything fits. -/
theorem Represents.restamp {cap : Nat} {c : Cache D (Held C) cap} {clients : Clients D C}
    (h : Represents c clients) {d : D} {entry : ClientEntry C} {n : Nat}
    (hl : clients.lookup d = some entry)
    (hlater : ∀ d' e', clients.lookup d' = some e' → e'.lastUsed < n) :
    Represents (c.use d ⟨entry.client, keysAt clients d⟩)
      (clients.insert d { entry with lastUsed := n }) := by
  have hkeys : keysAt clients d = entry.credKeys := by
    unfold keysAt
    rw [hl]
  rw [hkeys]
  obtain ⟨es₀, hes₀, hc⟩ := id h
  refine h.use d { entry with lastUsed := n } hlater fun es hes => ?_
  have hlen := hes.length_eq
  rw [length_insert_of_lookup _ hl, hes₀.length_eq] at hlen
  have hbound := c.bounded
  rw [hc, List.length_map] at hbound
  rw [List.take_of_length_le (by omega)]
  exact hes

/-- An insertion: past the cap the least stamp goes, which is the last entry. -/
theorem Represents.inserted {c : Cache D (Held C) config.maxEntries} {clients : Clients D C}
    (h : Represents c clients) {d : D} {entry : ClientEntry C} {lru : Option D}
    {it : IterOrder D (ClientEntry C)} (hl : clients.lookup d = none)
    (hlater : ∀ d' e', clients.lookup d' = some e' → e'.lastUsed < entry.lastUsed)
    (hlru : LruChoice config it (clients.insert d entry) lru) :
    Represents (c.use d entry.held) (insertEvicting clients d entry lru) := by
  obtain ⟨es₀, hes₀, hc⟩ := id h
  refine h.use d entry hlater fun es hes => ?_
  have hlen := hes.length_eq
  cases lru with
  | none =>
    have hroom : length (clients.insert d entry) ≤ config.maxEntries := hlru
    rw [List.take_of_length_le (by omega)]
    exact hes
  | some oldest =>
    obtain ⟨hfull, hmin⟩ := hlru
    have hbound := c.bounded
    rw [hc, List.length_map, ← hes₀.length_eq] at hbound
    have hone := length_insert_of_lookup_none entry hl
    have hdrop : es.take config.maxEntries = es.dropLast := by
      rw [List.dropLast_eq_take]
      congr 1
      omega
    rw [hdrop]
    exact hes.erase_min hmin

/-! ## A whole run -/

omit [DecidableEq D] in
theorem LastReturned.returning {client : Arc C} {r : Nat} (h : LastReturned hist client r) :
    r ∈ hist.filterMap returnReading := by
  obtain ⟨newer, x, older, rfl, hout, hread, -⟩ := h
  refine List.mem_filterMap.2 ⟨x, List.mem_append_right _ List.mem_cons_self, ?_⟩
  unfold returnReading
  rw [hout]
  exact hread

/-- A step that returns a client stamps it above all there is. -/
theorem run_stamp_lt (h : (registryMachine D C config).Run hist s) {st : RegistryStep D C} {n : Nat}
    (hlater : ReturnsLater (st :: hist)) (hst : returnReading st = some n) (d : D)
    (e : ClientEntry C) (he : s.clients.lookup d = some e) : e.lastUsed < n := by
  unfold ReturnsLater at hlater
  rw [List.filterMap_cons_some hst, List.pairwise_cons] at hlater
  exact hlater.1 _ (run_stamp h he).returning

omit [DecidableEq D] in
theorem ReturnsLater.tail {st : RegistryStep D C} (h : ReturnsLater (st :: hist)) :
    ReturnsLater hist :=
  h.sublist ((List.sublist_cons_self st hist).filterMap _)

theorem lruAfter_cons {st : RegistryStep D C} (op : Op D (Held C)) (h : lruOp st = some op) :
    lruAfter config (st :: hist) = (lruAfter config hist).apply op := by
  unfold lruAfter
  rw [List.filterMap_cons_some h]
  rfl

/-- One step is what the cache makes of it. -/
theorem moves_lruOp (h : (registryMachine D C config).Run hist s) (hm : Moves config s a t o)
    (hlater : ReturnsLater (⟨s, a, o, t⟩ :: hist))
    (hr : Represents (lruAfter config hist) s.clients) :
    Represents (lruAfter config (⟨s, a, o, t⟩ :: hist)) t.clients := by
  have hstamp := fun n => run_stamp_lt h (n := n) hlater
  cases hm with
  | hit hc hl => exact hr.restamp hl (hstamp _ rfl)
  | @lostRace i digest credKeys client elapsed it entry hc hl =>
    rw [lruAfter_cons (.use digest ⟨entry.client, keysAt s.clients digest⟩)
      (by simp only [lruOp, hc, Option.map_some])]
    exact hr.restamp hl (hstamp _ rfl)
  | @inserted i digest credKeys client elapsed it lru hc hl hlru =>
    rw [lruAfter_cons (.use digest ⟨client, credKeys⟩)
      (by simp only [lruOp, hc, Option.map_some])]
    exact hr.inserted hl (hstamp _ rfl) hlru
  | miss hc hl | invoked hc | built hc | failed hc | abandoned hc hp => exact hr
  | @evictFor p q it =>
    obtain ⟨es, hes, hc⟩ := hr
    refine ⟨_, hes.keysWhere it fun e => keyedBy p q e.credKeys, ?_⟩
    show (lruAfter config hist).entries.filter _ = _
    rw [hc, List.filter_map]
    rfl
  | evictForSecret => exact ⟨[], .empty, rfl⟩
  | @sweepIdle elapsed it =>
    obtain ⟨es, hes, hc⟩ := hr
    refine ⟨_, hes.keysWhere_old it (p := fun e => decide
      (nowMillis elapsed - e.lastUsed > asU64 config.idleEviction.asMillis)) ?_, ?_⟩
    · intro v w hle hw
      rw [decide_eq_true_eq] at hw ⊢
      omega
    · show (lruAfter config hist).entries.take _ = _
      rw [hc, List.map_take]
      rfl

theorem lru_represents (h : (registryMachine D C config).Run hist s) (hlater : ReturnsLater hist) :
    Represents (lruAfter config hist) s.clients := by
  refine h.inv (P := fun hist s => ReturnsLater hist → Represents (lruAfter config hist) s.clients)
    ?_ ?_ hlater
  · intro _
    exact ⟨[], .empty, rfl⟩
  · intro hist s a o t hr ih hn hlater
    exact moves_lruOp hr (registryNext_moves hn) hlater (ih hlater.tail)

/-- What the step evicts for room is the last entry of the cache, with the new one
in front. -/
def EvictsLast (config : ClientRegistryConfig) (older : List (RegistryStep D C))
    (st : RegistryStep D C) : Prop :=
  ∀ client d, st.out = .inserted client (some d) → ∃ i elapsed it c,
    st.label = .insert i elapsed it ∧ st.pre.calls i = some c ∧
      (c.digest :: (lruAfter config older).entries.map Prod.fst).getLast? = some d

theorem moves_evictsLast (h : (registryMachine D C config).Run hist s) (hm : Moves config s a t o)
    (hlater : ReturnsLater (⟨s, a, o, t⟩ :: hist))
    (hr : Represents (lruAfter config hist) s.clients) : EvictsLast config hist ⟨s, a, o, t⟩ := by
  intro client d ho
  simp only at ho
  subst ho
  cases hm with
  | @inserted i digest credKeys _ elapsed it lru hc hl hlru =>
    obtain ⟨es, hes, hentries⟩ := hr
    have hfront := hes.insert digest (v := ⟨client, credKeys, nowMillis elapsed⟩) fun e he =>
      run_stamp_lt h hlater rfl e.1 e.2 ((hes.lookup e.1 e.2).2 he)
    obtain ⟨front, v, hlast⟩ := hfront.min_last hlru.2
    have habsent : without digest es = es := by
      rw [without, List.filter_eq_self]
      rintro ⟨d', e'⟩ he
      rw [decide_eq_true_eq]
      rintro rfl
      rw [(hes.lookup _ e').2 he] at hl
      cases hl
    rw [habsent] at hlast
    refine ⟨i, elapsed, it, _, rfl, hc, ?_⟩
    have hkeys : digest :: (lruAfter config hist).entries.map Prod.fst =
        ((digest, (⟨client, credKeys, nowMillis elapsed⟩ : ClientEntry C)) :: es).map Prod.fst := by
      rw [hentries, List.map_map]
      rfl
    rw [hkeys, hlast, List.map_append]
    simp

/-- **Refinement.**  In every run whose calls return at distinct readings, the map
is the cache the steps of the run lead to, and its stamps are in the cache's
order; what an insertion evicts for room is the last entry of the cache. -/
theorem lru_refines (h : (registryMachine D C config).Run hist s) (hlater : ReturnsLater hist) :
    Represents (lruAfter config hist) s.clients ∧ Along (EvictsLast config) hist := by
  refine ⟨lru_represents h hlater, ?_⟩
  rintro newer st older rfl
  obtain ⟨hr, hn⟩ := h.split
  have hlater' : ReturnsLater (st :: older) :=
    hlater.sublist ((List.sublist_append_right newer _).filterMap _)
  exact moves_evictsLast hr (registryNext_moves hn) hlater' (lru_represents hr hlater'.tail)

theorem lru_refines_makesRoom :
    ∃ c, (registryMachine Nat Nat ⟨1, .fromSecs 900⟩).exec makesRoom ([], Registry.new) = some c ∧
      Represents (lruAfter ⟨1, .fromSecs 900⟩ c.1) c.2.clients ∧
      Along (EvictsLast ⟨1, .fromSecs 900⟩) c.1 := by
  obtain ⟨c, hc, hlater⟩ : ∃ c, (registryMachine Nat Nat ⟨1, .fromSecs 900⟩).exec makesRoom
      ([], Registry.new) = some c ∧ ReturnsLater c.1 := ⟨_, rfl, by unfold ReturnsLater; decide⟩
  exact ⟨c, hc, lru_refines (Machine.exec_init hc) hlater⟩

/-! ## Without removals -/

omit [DecidableEq D] in
/-- The digest under which the step returns a client. -/
def returnedDigest (st : RegistryStep D C) : Option D :=
  match st.label, st.out with
  | .lookup _ d _ _, .hit _ => some d
  | .insert i _ _, .lostRace _ => (st.pre.calls i).map Call.digest
  | .insert i _ _, .inserted _ _ => (st.pre.calls i).map Call.digest
  | _, _ => none

def Action.evicts : Action D C → Bool
  | .evictFor _ _ _ | .evictForSecret _ | .sweepIdle _ _ => true
  | _ => false

def NoRemovals (hist : List (RegistryStep D C)) : Prop := ∀ st ∈ hist, st.label.evicts = false

/-- Other steps than removals use the digest they return a client under. -/
theorem lruOp_of_returns {st : RegistryStep D C} (h : st.label.evicts = false) :
    (lruOp st = none ∧ returnedDigest st = none) ∨
      ∃ d held, lruOp st = some (.use d held) ∧ returnedDigest st = some d := by
  obtain ⟨pre, label, out, post⟩ := st
  cases label with
  | lookup i d keys elapsed =>
    cases out with
    | hit client => exact Or.inr ⟨_, _, rfl, rfl⟩
    | miss | invoked | built | failed | lostRace | inserted | abandoned | evicted =>
      exact Or.inl ⟨rfl, rfl⟩
  | insert i elapsed it =>
    cases out with
    | lostRace | inserted =>
      cases hc : pre.calls i with
      | none => exact Or.inl ⟨by simp only [lruOp, hc, Option.map_none],
          by simp only [returnedDigest, hc, Option.map_none]⟩
      | some c => exact Or.inr ⟨c.digest, _, by simp only [lruOp, hc, Option.map_some]; rfl,
          by simp only [returnedDigest, hc, Option.map_some]⟩
    | hit | miss | invoked | built | failed | abandoned | evicted => exact Or.inl ⟨rfl, rfl⟩
  | invoke | finish | abandon => exact Or.inl ⟨rfl, rfl⟩
  | evictFor | evictForSecret | sweepIdle => cases h

theorem ops_uses (h : NoRemovals hist) : ∃ uses : List (D × Held C),
    hist.filterMap lruOp = uses.map (fun e => Op.use e.1 e.2) ∧
      hist.filterMap returnedDigest = uses.map Prod.fst := by
  induction hist with
  | nil => exact ⟨[], rfl, rfl⟩
  | cons st hist ih =>
    obtain ⟨uses, hops, hdigests⟩ := ih fun x hx => h x (List.mem_cons_of_mem _ hx)
    rcases lruOp_of_returns (h st List.mem_cons_self) with ⟨hop, hd⟩ | ⟨d, held, hop, hd⟩
    · refine ⟨uses, ?_, ?_⟩
      · rw [List.filterMap_cons_none hop, hops]
      · rw [List.filterMap_cons_none hd, hdigests]
    · refine ⟨(d, held) :: uses, ?_, ?_⟩
      · rw [List.filterMap_cons_some hop, hops, List.map_cons]
      · rw [List.filterMap_cons_some hd, hdigests, List.map_cons]

theorem run_cached_iff (h : (registryMachine D C config).Run hist s) (hlater : ReturnsLater hist)
    (hno : NoRemovals hist) (d : D) :
    (∃ e, s.clients.lookup d = some e) ↔
      d ∈ (recent (hist.filterMap returnedDigest)).take config.maxEntries := by
  obtain ⟨es, hes, hc⟩ := lru_represents h hlater
  obtain ⟨uses, hops, hdigests⟩ := ops_uses hno
  have hkeys := keys_uses config.maxEntries uses
  rw [← hops, ← hdigests] at hkeys
  rw [← hkeys]
  show _ ↔ d ∈ (lruAfter config hist).entries.map Prod.fst
  rw [hc, List.map_map, List.mem_map]
  constructor
  · rintro ⟨e, he⟩
    exact ⟨(d, e), (hes.lookup d e).1 he, rfl⟩
  · rintro ⟨⟨d, e⟩, hm, rfl⟩
    exact ⟨e, (hes.lookup d e).2 hm⟩

/-- **The most recently returned digests are cached.**  Without removals, and with
distinct readings, exactly the `maxEntries` digests returned last are cached; so
of two registries that returned clients for the same digests in the same order,
the larger one caches all that the smaller one does. -/
theorem cached_most_recent (h : (registryMachine D C config).Run hist s)
    (hlater : ReturnsLater hist) (hno : NoRemovals hist) :
    (∀ d, (∃ e, s.clients.lookup d = some e) ↔
      d ∈ (recent (hist.filterMap returnedDigest)).take config.maxEntries) ∧
    ∀ (config' : ClientRegistryConfig) hist' (s' : Registry D C),
      (registryMachine D C config').Run hist' s' → ReturnsLater hist' → NoRemovals hist' →
      hist'.filterMap returnedDigest = hist.filterMap returnedDigest →
      config.maxEntries ≤ config'.maxEntries →
      ∀ d e, s.clients.lookup d = some e → ∃ e', s'.clients.lookup d = some e' := by
  refine ⟨run_cached_iff h hlater hno, ?_⟩
  intro config' hist' s' h' hlater' hno' hsame hle d e he
  have hd := (run_cached_iff h hlater hno d).1 ⟨e, he⟩
  rw [← hsame] at hd
  apply (run_cached_iff h' hlater' hno' d).2
  rw [← Nat.min_eq_left hle, ← List.take_take] at hd
  exact List.mem_of_mem_take hd

theorem cached_most_recent_makesRoom :
    ∃ c c', (registryMachine Nat Nat ⟨1, .fromSecs 900⟩).exec makesRoom ([], Registry.new) = some c ∧
      (registryMachine Nat Nat ⟨2, .fromSecs 900⟩).exec makesRoom ([], Registry.new) = some c' ∧
      (∀ d, (∃ e, c.2.clients.lookup d = some e) ↔
        d ∈ (recent (c.1.filterMap returnedDigest)).take 1) ∧
      ∀ d e, c.2.clients.lookup d = some e → ∃ e', c'.2.clients.lookup d = some e' := by
  obtain ⟨c, hc, hlater, hno, hsame⟩ : ∃ c, (registryMachine Nat Nat ⟨1, .fromSecs 900⟩).exec
      makesRoom ([], Registry.new) = some c ∧ ReturnsLater c.1 ∧ NoRemovals c.1 ∧
        c.1.filterMap returnedDigest = [8, 7] :=
    ⟨_, rfl, by unfold ReturnsLater; decide, by unfold NoRemovals; decide, rfl⟩
  obtain ⟨c', hc', hlater', hno', hsame'⟩ : ∃ c', (registryMachine Nat Nat ⟨2, .fromSecs 900⟩).exec
      makesRoom ([], Registry.new) = some c' ∧ ReturnsLater c'.1 ∧ NoRemovals c'.1 ∧
        c'.1.filterMap returnedDigest = [8, 7] :=
    ⟨_, rfl, by unfold ReturnsLater; decide, by unfold NoRemovals; decide, rfl⟩
  have hm := cached_most_recent (Machine.exec_init hc) hlater hno
  have hlarger := hm.2 _ _ _ (Machine.exec_init hc') hlater' hno' (hsame'.trans hsame.symm)
    (by decide)
  exact ⟨c, c', hc, hc', hm.1, hlarger⟩

end NetCore
