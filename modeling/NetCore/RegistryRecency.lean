import NetCore.RegistryLive

/-!
# The recency stamp

A reading is what `now_millis` returns; below 2⁶⁴ milliseconds it is the time
since the registry's epoch (`nowMillis_of_lt`).  The stamp of an entry is written
on three exits of `get_or_build`; it always is the reading of the step that last
returned the entry's client (`run_stamp`).  So the least stamp is the least
recently returned client, and what an insertion evicts for room was last returned
no later than anything it leaves (`stamps_and_lru`).
-/

namespace NetCore

open HashTable StepSystem

variable {D C : Type}

/-- The clock of a section, as `now_millis` reads it. -/
def Action.reading : Action D C → Option Nat
  | .lookup _ _ _ elapsed | .insert _ elapsed _ | .sweepIdle elapsed _ => some (nowMillis elapsed)
  | _ => none

/-- The client a step returns. -/
def Shown.returned : Shown D C → Option (Arc C)
  | .hit client | .lostRace client | .inserted client _ => some client
  | _ => none

/-- The last step that returned the client did so at reading `r`. -/
def LastReturned (hist : List (RegistryStep D C)) (client : Arc C) (r : Nat) : Prop :=
  ∃ newer st older, hist = newer ++ st :: older ∧ st.out.returned = some client ∧
    st.label.reading = some r ∧ ∀ x ∈ newer, x.out.returned ≠ some client

theorem nowMillis_of_lt {elapsed : Nat} (h : elapsed < 2 ^ 64) : nowMillis elapsed = elapsed :=
  Nat.mod_eq_of_lt h

theorem nowMillis_lt (elapsed : Nat) : nowMillis elapsed < 2 ^ 64 :=
  Nat.mod_lt _ (by decide)

/-! ## The last return -/

variable {hist : List (RegistryStep D C)} {st : RegistryStep D C} {client : Arc C} {r r' : Nat}

theorem lastReturned_cons : LastReturned (st :: hist) client r ↔
    (st.out.returned = some client ∧ st.label.reading = some r) ∨
      (st.out.returned ≠ some client ∧ LastReturned hist client r) := by
  constructor
  · rintro ⟨newer, x, older, heq, hout, hread, hnewer⟩
    cases newer with
    | nil =>
      obtain ⟨rfl, rfl⟩ := List.cons.inj heq
      exact Or.inl ⟨hout, hread⟩
    | cons y newer =>
      obtain ⟨rfl, rfl⟩ := List.cons.inj heq
      exact Or.inr ⟨hnewer st List.mem_cons_self, newer, x, older, rfl, hout, hread,
        fun z hz => hnewer z (List.mem_cons_of_mem _ hz)⟩
  · rintro (⟨hout, hread⟩ | ⟨hne, newer, x, older, rfl, hout, hread, hnewer⟩)
    · exact ⟨[], st, hist, rfl, hout, hread, fun x hx => (by cases hx)⟩
    · refine ⟨st :: newer, x, older, rfl, hout, hread, ?_⟩
      intro z hz
      rcases List.mem_cons.1 hz with rfl | hz
      · exact hne
      · exact hnewer z hz

theorem LastReturned.unique (h : LastReturned hist client r) (h' : LastReturned hist client r') :
    r = r' := by
  induction hist with
  | nil =>
    obtain ⟨newer, x, older, heq, -⟩ := h
    exact absurd heq (by simp)
  | cons st hist ih =>
    rw [lastReturned_cons] at h h'
    rcases h with ⟨hout, hread⟩ | ⟨hne, h⟩
    · rcases h' with ⟨-, hread'⟩ | ⟨hne, -⟩
      · rw [hread, Option.some.injEq] at hread'
        exact hread'
      · exact absurd hout hne
    · rcases h' with ⟨hout, -⟩ | ⟨-, h'⟩
      · exact absurd hout hne
      · exact ih h h'

/-- Steps before a return of the client do not matter. -/
theorem LastReturned.since {newer older : List (RegistryStep D C)}
    (h : LastReturned (newer ++ st :: older) client r) (hst : st.out.returned = some client) :
    LastReturned (newer ++ [st]) client r := by
  induction newer with
  | nil =>
    rw [List.nil_append, lastReturned_cons] at h ⊢
    rcases h with h | ⟨hne, -⟩
    · exact Or.inl h
    · exact absurd hst hne
  | cons x newer ih =>
    rw [List.cons_append, lastReturned_cons] at h ⊢
    rcases h with h | ⟨hne, h⟩
    · exact Or.inl h
    · exact Or.inr ⟨hne, ih h⟩

/-- The reading is that of a step of the run. -/
theorem LastReturned.mem (h : LastReturned hist client r) :
    ∃ x ∈ hist, x.label.reading = some r := by
  obtain ⟨newer, x, older, rfl, -, hread, -⟩ := h
  exact ⟨x, List.mem_append_right _ List.mem_cons_self, hread⟩

/-! ## What a step does to the stamps -/

variable [DecidableEq D] {config : ClientRegistryConfig} {s t : Registry D C} {a : Action D C}
  {o : Shown D C}

/-- Two digests never share a client: each client was built for one of them. -/
theorem Traced.digest_unique (ht : Traced hist s) {d d' : D} {e e' : ClientEntry C}
    (he : s.clients.lookup d = some e) (he' : s.clients.lookup d' = some e')
    (hc : e.client = e'.client) : d = d' := by
  obtain ⟨⟨phase, hcall⟩, -⟩ := ht.cached he
  obtain ⟨⟨phase', hcall'⟩, -⟩ := ht.cached he'
  rw [hc, hcall', Option.some.injEq, Call.mk.injEq] at hcall
  exact hcall.1.symm

/-- A call about to insert holds a client no other digest has. -/
theorem Traced.own_ne_cached (ht : Traced hist s) {i : CallId} {digest d : D}
    {keys : List (String × String)} {e : ClientEntry C}
    (hc : s.calls i = some ⟨digest, keys, .built client⟩) (he : s.clients.lookup d = some e)
    (hd : d ≠ digest) : client ≠ e.client := by
  rintro rfl
  obtain ⟨⟨phase, hcall⟩, -⟩ := ht.cached he
  rw [(ht.built hc).1, hc, Option.some.injEq, Call.mk.injEq] at hcall
  exact hd hcall.1.symm

/-- Renewing one stamp: the renewed entry is returned, no other one is. -/
theorem restamp_returned (ht : Traced hist s) {digest d : D} {entry e : ClientEntry C} {n : Nat}
    (hl : s.clients.lookup digest = some entry)
    (he : (s.clients.insert digest { entry with lastUsed := n }).lookup d = some e) :
    (entry.client = e.client ∧ e.lastUsed = n) ∨
      (entry.client ≠ e.client ∧ s.clients.lookup d = some e) := by
  rw [lookup_insert_eq] at he
  by_cases hd : d = digest
  · rw [if_pos hd, Option.some.injEq] at he
    subst he
    exact Or.inl ⟨rfl, rfl⟩
  · rw [if_neg hd] at he
    refine Or.inr ⟨?_, he⟩
    intro hclient
    exact hd (ht.digest_unique hl he hclient).symm

/-- **Each stamp is written when its client is returned, and only then.** -/
theorem moves_stamp (h : Moves config s a t o) (htr : Traced hist s) {d : D} {e : ClientEntry C}
    (he : t.clients.lookup d = some e) :
    (o.returned = some e.client ∧ a.reading = some e.lastUsed) ∨
      (o.returned ≠ some e.client ∧ s.clients.lookup d = some e) := by
  cases h with
  | hit hc hl | lostRace hc hl =>
    simp only [Shown.returned, Action.reading, ne_eq, Option.some.injEq]
    rcases restamp_returned htr hl he with ⟨hclient, hstamp⟩ | h
    · exact Or.inl ⟨hclient, hstamp.symm⟩
    · exact Or.inr h
  | @inserted i digest credKeys client elapsed it lru hc hl hlru =>
    simp only [Shown.returned, Action.reading, ne_eq, Option.some.injEq]
    rcases lookup_insertEvicting he with ⟨rfl, rfl⟩ | ⟨hd, he'⟩
    · exact Or.inl ⟨rfl, rfl⟩
    · exact Or.inr ⟨htr.own_ne_cached hc he' hd, he'⟩
  | miss hc hl | invoked hc | built hc | failed hc | abandoned hc hp =>
    exact Or.inr ⟨nofun, he⟩
  | evictFor =>
    rw [lookup_evictFor] at he
    exact Or.inr ⟨nofun, he.1⟩
  | evictForSecret => cases he
  | sweepIdle =>
    rw [lookup_sweepIdle] at he
    exact Or.inr ⟨nofun, he.1⟩

/-- **The stamp is the last return.** -/
theorem run_stamp (h : (registryMachine D C config).Run hist s) {d : D} {e : ClientEntry C}
    (he : s.clients.lookup d = some e) : LastReturned hist e.client e.lastUsed := by
  refine h.inv (P := fun hist s => ∀ d e, s.clients.lookup d = some e →
    LastReturned hist e.client e.lastUsed) ?_ ?_ d e he
  · intro d e he
    cases he
  · intro hist s a o t hr ih hn d e he
    rw [lastReturned_cons]
    rcases moves_stamp (registryNext_moves hn) (run_traced hr) he with hnow | ⟨hne, hpre⟩
    · exact Or.inl hnow
    · exact Or.inr ⟨hne, ih d e hpre⟩

omit [DecidableEq D] in
theorem Inserts.returned {d : D} {keys : List (String × String)} (h : Inserts d st client keys) :
    st.out.returned = some client := by
  obtain ⟨i, elapsed, it, lru, -, hout, -⟩ := h
  rw [hout]
  rfl

/-! ## Evicting for room -/

/-- The insertion evicts `d`, which had `client`: an older entry, or the new one. -/
def EvictsForRoom (st : RegistryStep D C) (d : D) (client : Arc C) : Prop :=
  (∃ own, st.out = .inserted own (some d)) ∧
    ((∃ e, st.pre.clients.lookup d = some e ∧ e.client = client) ∨
      ∃ keys, Inserts d st client keys)

/-- An insertion that evicts for room leaves nothing with a smaller stamp. -/
theorem moves_lru (h : Moves config s a t o) (htr : Traced hist s) {own : Arc C} {d : D}
    (ho : o = .inserted own (some d)) :
    ∃ client r, EvictsForRoom ⟨s, a, o, t⟩ d client ∧
      ((o.returned = some client ∧ a.reading = some r) ∨
        (o.returned ≠ some client ∧ ∃ e, s.clients.lookup d = some e ∧ e.client = client ∧
          e.lastUsed = r)) ∧
      ∀ d' e', t.clients.lookup d' = some e' → r ≤ e'.lastUsed := by
  subst ho
  cases h with
  | @inserted i digest credKeys _ elapsed it lru hc hl hlru =>
    obtain ⟨v, hv, hleast⟩ := minByKey_some hlru.2
    have hkept : ∀ d' e', (insertEvicting s.clients digest ⟨own, credKeys, nowMillis elapsed⟩
        (some d)).lookup d' = some e' → v.lastUsed ≤ e'.lastUsed := by
      intro d' e' he'
      simp only [insertEvicting, lookup_erase_eq] at he'
      split at he'
      · cases he'
      · exact hleast d' e' he'
    simp only [Shown.returned, Action.reading, ne_eq, Option.some.injEq]
    rw [lookup_insert_eq] at hv
    by_cases hd : d = digest
    · -- the new entry itself
      rw [if_pos hd, Option.some.injEq] at hv
      subst hd hv
      exact ⟨own, nowMillis elapsed, ⟨⟨own, rfl⟩, Or.inr ⟨credKeys, i, elapsed, it, _, rfl, rfl,
        hc, (htr.built hc).1⟩⟩, Or.inl ⟨rfl, rfl⟩, hkept⟩
    · rw [if_neg hd] at hv
      exact ⟨v.client, v.lastUsed, ⟨⟨own, rfl⟩, Or.inl ⟨v, hv, rfl⟩⟩,
        Or.inr ⟨htr.own_ne_cached hc hv hd, v, hv, rfl, rfl⟩, hkept⟩

/-- The entry was inserted and not removed since, and its stamp is the reading of
the last step since then that returned its client. -/
def StampedSince (hist : List (RegistryStep D C)) (d : D) (e : ClientEntry C) : Prop :=
  ∃ since ins before, hist = since ++ ins :: before ∧ Inserts d ins e.client e.credKeys ∧
    (∀ x ∈ since ++ [ins], ¬ Removes d x) ∧ LastReturned (since ++ [ins]) e.client e.lastUsed

/-- What the step evicts for room was last returned no later than what it leaves. -/
def EvictsLeastRecent (older : List (RegistryStep D C)) (st : RegistryStep D C) : Prop :=
  ∀ own d, st.out = .inserted own (some d) →
    ∃ client r, EvictsForRoom st d client ∧ LastReturned (st :: older) client r ∧
      ∀ d' e', st.post.clients.lookup d' = some e' →
        ∃ r', LastReturned (st :: older) e'.client r' ∧ r ≤ r'

/-- **Eviction for room is least recently used.**  In every state the stamp of an
entry is the reading of the last step, since its insertion, that returned its
client; an insertion that evicts an entry leaves only entries that were last
returned at the same reading or a later one. -/
theorem stamps_and_lru (config : ClientRegistryConfig)
    (h : (registryMachine D C config).Run hist s) :
    (∀ d e, s.clients.lookup d = some e → StampedSince hist d e) ∧
      Along EvictsLeastRecent hist := by
  constructor
  · intro d e he
    obtain ⟨since, ins, before, rfl, hins, hkept⟩ := run_caches h ⟨e, he, rfl, rfl⟩
    exact ⟨since, ins, before, rfl, hins, hkept, (run_stamp h he).since hins.returned⟩
  · rintro newer st older rfl own d ho
    obtain ⟨hr, hn⟩ := h.split
    obtain ⟨client, r, hev, hlast, hleast⟩ :=
      moves_lru (registryNext_moves hn) (run_traced hr) ho
    refine ⟨client, r, hev, ?_, ?_⟩
    · rw [lastReturned_cons]
      rcases hlast with hnow | ⟨hne, e, he, rfl, rfl⟩
      · exact Or.inl hnow
      · exact Or.inr ⟨hne, run_stamp hr he⟩
    · intro d' e' he'
      have hpost : (registryMachine D C config).Run (st :: older) st.post :=
        Machine.run_cons.2 ⟨hr, hn, rfl⟩
      exact ⟨e'.lastUsed, run_stamp hpost he', hleast d' e' he'⟩

/-- A map of one entry: digest 7 makes room for digest 8. -/
def makesRoom : List (Action Nat Nat) :=
  [.lookup 0 7 [] 3, .invoke 0, .finish 0 (.ok 70), .insert 0 4 (.stored _ _),
    .lookup 1 8 [] 5, .invoke 1, .finish 1 (.ok 80), .insert 1 9 (.stored _ _)]

theorem stamps_and_lru_makesRoom :
    ∃ c, (registryMachine Nat Nat ⟨1, .fromSecs 900⟩).exec makesRoom ([], Registry.new) = some c ∧
      (∀ d e, c.2.clients.lookup d = some e → StampedSince c.1 d e) ∧
      Along EvictsLeastRecent c.1 := by
  obtain ⟨c, hc⟩ : ∃ c, (registryMachine Nat Nat ⟨1, .fromSecs 900⟩).exec makesRoom
      ([], Registry.new) = some c := Option.isSome_iff_exists.1 rfl
  exact ⟨c, hc, stamps_and_lru _ (Machine.exec_init hc)⟩

end NetCore
