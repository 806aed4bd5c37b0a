import NetCore.RegistryRecency
import NetCore.RegistryStale

/-!
# An insertion that evicts itself

The map holds the new entry when the least recently used one is looked for.  The
clock never runs back, so no entry is more recent than the new one; but entries
used in the same millisecond tie with it, and of tied entries the first one of the
walk goes.  `insertion_stays_iff`: in a full map whose entries all tie with the new
one, the new one stays unless the walk starts with it.
-/

namespace NetCore

open HashTable StepSystem

variable {D C : Type} [DecidableEq D]

/-- No reading is later than one after it; the history has the newest first. -/
def ClockMonotone (hist : List (RegistryStep D C)) : Prop :=
  (hist.filterMap fun st => st.label.reading).Pairwise (· ≥ ·)

/-- What the step inserts stays, so that a call for it in the next step is a hit
and has returned. -/
def StaysCached (config : ClientRegistryConfig) (st : RegistryStep D C) : Prop :=
  ∀ d client keys, Inserts d st client keys →
    Caches st.post d client keys ∧
      ∀ j keys' elapsed, st.post.calls j = none →
        ∃ t, registryNext config st.post (.lookup j d keys' elapsed) = some (t, .hit client) ∧
          t.calls j = some ⟨d, keys', .returned (.ok client)⟩

/-- The map has room, or an entry was last used at an earlier reading, or the walk
does not start with the new entry. -/
def RoomOrOlder (config : ClientRegistryConfig) (it : IterOrder D (ClientEntry C))
    (clients : Clients D C) (d : D) (entry : ClientEntry C) : Prop :=
  length clients < config.maxEntries ∨
    (∃ d' e', clients.lookup d' = some e' ∧ e'.lastUsed < entry.lastUsed) ∨
    ((it.walk (clients.insert d entry)).head?).map Sigma.fst ≠ some d

/-- If the step is a second section about to insert, `P` holds of its order, map,
digest and new entry. -/
def IfInserting (P : IterOrder D (ClientEntry C) → Clients D C → D → ClientEntry C → Prop)
    (st : RegistryStep D C) : Prop :=
  ∀ i elapsed it d keys client, st.label = .insert i elapsed it →
    st.pre.calls i = some ⟨d, keys, .built client⟩ → st.pre.clients.lookup d = none →
    P it st.pre.clients d ⟨client, keys, nowMillis elapsed⟩

variable {config : ClientRegistryConfig} {s t : Registry D C} {a : Action D C} {o : Shown D C}
  {hist : List (RegistryStep D C)}

/-- With a clock that never runs back no stamp is in the future. -/
theorem run_stamp_le (h : (registryMachine D C config).Run hist s) {st : RegistryStep D C} {r : Nat}
    (hclock : ClockMonotone (st :: hist)) (hr : st.label.reading = some r) {d : D}
    {e : ClientEntry C} (he : s.clients.lookup d = some e) : e.lastUsed ≤ r := by
  obtain ⟨x, hx, hread⟩ := (run_stamp h he).mem
  unfold ClockMonotone at hclock
  rw [List.filterMap_cons_some (f := fun x : RegistryStep D C => x.label.reading) hr,
    List.pairwise_cons] at hclock
  exact hclock.1 _ (List.mem_filterMap.2 ⟨x, hx, hread⟩)

/-- The own entry is kept: room, an older entry, or a walk that starts elsewhere. -/
theorem keepsOwn_iff {it : IterOrder D (ClientEntry C)} {clients : Clients D C} {d : D}
    {entry : ClientEntry C} (hl : clients.lookup d = none)
    (hle : ∀ d' e', clients.lookup d' = some e' → e'.lastUsed ≤ entry.lastUsed) :
    KeepsOwn config it clients d entry ↔ RoomOrOlder config it clients d entry := by
  unfold KeepsOwn RoomOrOlder
  rw [length_insert_of_lookup_none _ hl, Nat.succ_le_iff]
  by_cases holder : ∃ d' e', clients.lookup d' = some e' ∧ e'.lastUsed < entry.lastUsed
  · -- an older entry is a lesser one
    obtain ⟨d', e', he', hlt⟩ := holder
    have hne : d' ≠ d := by
      rintro rfl
      rw [hl] at he'
      cases he'
    constructor
    · intro _
      exact Or.inr (Or.inl ⟨d', e', he', hlt⟩)
    · intro _
      refine Or.inr fun hmin => ?_
      obtain ⟨v, hv, hleast⟩ := minByKey_some hmin
      rw [AList.lookup_insert, Option.some.injEq] at hv
      subst hv
      have := hleast d' e' (by rw [lookup_insert_eq, if_neg hne, he'])
      omega
  · -- all entries tie
    have hties : ∀ d' v, (clients.insert d entry).lookup d' = some v →
        v.lastUsed = entry.lastUsed := by
      intro d' v hv
      rw [lookup_insert_eq] at hv
      split at hv
      · rw [← Option.some.inj hv]
      · have := hle d' v hv
        have : ¬ v.lastUsed < entry.lastUsed := fun hlt => holder ⟨d', v, hv, hlt⟩
        omega
    rw [minByKey_of_ties hties]
    constructor
    · rintro (h | h)
      · exact Or.inl h
      · exact Or.inr (Or.inr h)
    · rintro (h | h | h)
      · exact Or.inl h
      · exact absurd h holder
      · exact Or.inr h

/-- A lookup of a cached digest is a hit, and its call has returned. -/
theorem registryNext_hit {j : CallId} {d : D} {keys : List (String × String)} {elapsed : Nat}
    {e : ClientEntry C} (hj : s.calls j = none) (he : s.clients.lookup d = some e) :
    ∃ t, registryNext config s (.lookup j d keys elapsed) = some (t, .hit e.client) ∧
      t.calls j = some ⟨d, keys, .returned (.ok e.client)⟩ := by
  refine ⟨⟨s.clients.insert d { e with lastUsed := nowMillis elapsed },
    s.setCall j ⟨d, keys, .missed⟩ (.returned (.ok e.client))⟩, ?_, Function.update_self _ _ _⟩
  simp only [registryNext, hj, getOrBuildLookup, he]

/-- An insertion stays exactly if its own entry is kept. -/
theorem moves_staysCached_iff (h : Moves config s a t o) (htr : Traced hist s) :
    StaysCached config ⟨s, a, o, t⟩ ↔ IfInserting (KeepsOwn config) ⟨s, a, o, t⟩ := by
  constructor
  · rintro hstays i elapsed it d keys client rfl hc hl
    cases h with
    | lostRace hc' hl' =>
      cases hc.symm.trans hc'
      rw [hl] at hl'
      cases hl'
    | inserted hc' hl' hlru =>
      cases hc.symm.trans hc'
      obtain ⟨e, he, -, -⟩ :=
        (hstays d client keys ⟨i, elapsed, it, _, rfl, rfl, hc, (htr.built hc).1⟩).1
      rcases lookup_insertEvicting he with ⟨-, rfl⟩ | ⟨hne, -⟩
      · exact (lookup_own hlru).1 he
      · exact absurd rfl hne
  · rintro hkeeps d client keys ⟨i, elapsed, it, lru, ha, ho, hc, hptr⟩
    cases ha
    cases ho
    cases h with
    | inserted hc' hl hlru =>
      cases hc.symm.trans hc'
      have hown := (lookup_own hlru).2 (hkeeps i elapsed it d keys client rfl hc hl)
      exact ⟨⟨_, hown, rfl, rfl⟩, fun j keys' elapsed' hj => registryNext_hit hj hown⟩

/-- **When an insertion stays.**  On every step of a run whose clock never runs
back, what the step inserts is a hit in the next step exactly if the map had room,
or an entry was last used at an earlier reading, or the walk starts with another
entry. -/
theorem insertion_stays_iff (config : ClientRegistryConfig)
    (h : (registryMachine D C config).Run hist s) (hclock : ClockMonotone hist) :
    Along (fun _ st => StaysCached config st ↔ IfInserting (RoomOrOlder config) st) hist := by
  rintro newer st older rfl
  obtain ⟨hr, hn⟩ := h.split
  have hclock' : ClockMonotone (st :: older) := by
    unfold ClockMonotone at hclock ⊢
    rw [List.filterMap_append, List.pairwise_append] at hclock
    exact hclock.2.1
  have hkeeps : ∀ i elapsed it d keys client, st.label = .insert i elapsed it →
      st.pre.clients.lookup d = none →
      (KeepsOwn config it st.pre.clients d ⟨client, keys, nowMillis elapsed⟩ ↔
        RoomOrOlder config it st.pre.clients d ⟨client, keys, nowMillis elapsed⟩) := by
    intro i elapsed it d keys client ha hl
    apply keepsOwn_iff hl
    intro d' e' he'
    exact run_stamp_le hr hclock' (by rw [ha]; rfl) he'
  apply (moves_staysCached_iff (registryNext_moves hn) (run_traced hr)).trans
  constructor
  · intro hk i elapsed it d keys client ha hc hl
    exact (hkeeps i elapsed it d keys client ha hl).1 (hk i elapsed it d keys client ha hc hl)
  · intro hk i elapsed it d keys client ha hc hl
    exact (hkeeps i elapsed it d keys client ha hl).2 (hk i elapsed it d keys client ha hc hl)

/-- A map of one entry; digest 8 is inserted in the millisecond digest 7 was, and the
walk starts with it. -/
def sameMilli : List (Action Nat Nat) :=
  [.lookup 0 7 [] 3, .invoke 0, .finish 0 (.ok 70), .insert 0 4 (.stored _ _),
    .lookup 1 8 [] 4, .invoke 1, .finish 1 (.ok 80), .insert 1 4 (.stored _ _)]

theorem insertion_stays_sameMilli :
    ∃ c, (registryMachine Nat Nat ⟨1, .fromSecs 900⟩).exec sameMilli ([], Registry.new) = some c ∧
      ClockMonotone c.1 ∧ ∃ st ∈ c.1, ¬ StaysCached ⟨1, .fromSecs 900⟩ st := by
  refine ⟨_, rfl, ?_, _, List.mem_cons_self, ?_⟩
  · unfold ClockMonotone
    decide
  · intro hstays
    obtain ⟨⟨e, he, -⟩, -⟩ := hstays 8 ⟨1, 80⟩ [] ⟨1, 4, _, _, rfl, rfl, rfl, rfl⟩
    cases he

theorem insertion_stays_iff_sameMilli :
    ∃ c, (registryMachine Nat Nat ⟨1, .fromSecs 900⟩).exec sameMilli ([], Registry.new) = some c ∧
      Along (fun _ st => StaysCached ⟨1, .fromSecs 900⟩ st ↔
        IfInserting (RoomOrOlder ⟨1, .fromSecs 900⟩) st) c.1 := by
  have hclock : ∀ c, (registryMachine Nat Nat ⟨1, .fromSecs 900⟩).exec sameMilli
      ([], Registry.new) = some c → ClockMonotone c.1 := by
    rintro c ⟨⟩
    unfold ClockMonotone
    decide
  obtain ⟨c, hc⟩ : ∃ c, (registryMachine Nat Nat ⟨1, .fromSecs 900⟩).exec sameMilli
      ([], Registry.new) = some c := ⟨_, rfl⟩
  exact ⟨c, hc, insertion_stays_iff _ (Machine.exec_init hc) (hclock c hc)⟩

end NetCore
