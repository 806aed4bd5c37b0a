import NetCore.RegistryLive

/-!
# Cold callers

A caller that misses leaves the lock before it builds, so a second cold caller
misses too and both build (`coldCallers_twoCold`).  Only while no caller takes
its first look at an absent digest inside another caller's window is there one
build at a time (`coldCallers_serial`).
-/

namespace NetCore

open HashTable StepSystem

variable {D C : Type} [DecidableEq D]

/-- The call is between its two lock sections. -/
def Phase.inWindow : Phase C → Bool
  | .missed | .building | .built _ => true
  | _ => false

/-- Its build has been invoked, and what it built is not in the map yet. -/
def Phase.invoked : Phase C → Bool
  | .building | .built _ => true
  | _ => false

def callFor (s : Registry D C) (d : D) (i : CallId) (phase : Phase C) : Prop :=
  ∃ credKeys, s.calls i = some ⟨d, credKeys, phase⟩

/-- No two builds for `d` are in progress. -/
def OneBuildAtATime (d : D) (s : Registry D C) : Prop :=
  ∀ i j, callFor s d i .building → callFor s d j .building → i = j

/-- The step invokes a build for `d`. -/
def invokesFor (d : D) (st : RegistryStep D C) : Bool :=
  match st.label with
  | .invoke i =>
    match st.pre.calls i with
    | some c => c.digest = d
    | none => false
  | _ => false

/-- The step fails a build for `d`. -/
def FailsFor (d : D) (st : RegistryStep D C) : Prop :=
  ∃ i e, st.label = .finish i (.error e) ∧ callFor st.pre d i .building

/-- How often the calls for `d` invoked their builds. -/
def invocations (d : D) (hist : List (RegistryStep D C)) : Nat :=
  (hist.filter (invokesFor d)).length

/-- If `d` was never removed and no build for it failed, it was built once. -/
def OneInvocation (d : D) (hist : List (RegistryStep D C)) : Prop :=
  (∀ st ∈ hist, ¬ Removes d st ∧ ¬ FailsFor d st) → invocations d hist ≤ 1

/-- A first look at `d` that finds nothing is not taken inside the window of
another call for `d`. -/
def SerialLookup (d : D) (st : RegistryStep D C) : Prop :=
  ∀ i credKeys elapsed, st.label = .lookup i d credKeys elapsed →
    st.pre.clients.lookup d = none → ∀ j phase, callFor st.pre d j phase → phase.inWindow = false

/-- No call for `d` is dropped between the invocation of its build and its end. -/
def NotDropped (d : D) (st : RegistryStep D C) : Prop :=
  ∀ i phase, st.label = .abandon i → ¬ callFor st.pre d i phase

variable {config : ClientRegistryConfig} {s t : Registry D C} {a : Action D C} {o : Shown D C}
  {hist : List (RegistryStep D C)} {d : D}

/-- At most one call for `d` is in its window, and while one is, `d` is absent. -/
structure OneWindow (d : D) (s : Registry D C) : Prop where
  unique : ∀ {i j p q}, callFor s d i p → callFor s d j q → p.inWindow = true →
    q.inWindow = true → i = j
  absent : ∀ {i p}, callFor s d i p → p.inWindow = true → s.clients.lookup d = none

/-- A call in its window was in it before, or misses in this step. -/
theorem moves_inWindow (h : Moves config s a t o) {i : CallId} {q : Phase C}
    (ht : callFor t d i q) (hq : q.inWindow = true) :
    (∃ p, callFor s d i p ∧ p.inWindow = true) ∨
      ((∃ credKeys elapsed, a = .lookup i d credKeys elapsed) ∧ s.clients.lookup d = none ∧
        t.clients = s.clients) := by
  obtain ⟨keys, ht⟩ := ht
  cases h with
  | hit hc hl | lostRace hc hl | failed hc | inserted hc hl hlru | abandoned hc hp =>
    rcases update_some ht with ⟨-, hcall⟩ | ⟨-, hcall⟩
    · cases hcall
      cases hq
    · exact Or.inl ⟨q, ⟨keys, hcall⟩, hq⟩
  | invoked hc | built hc =>
    rcases update_some ht with ⟨rfl, hcall⟩ | ⟨-, hcall⟩
    · cases hcall
      exact Or.inl ⟨_, ⟨keys, hc⟩, rfl⟩
    · exact Or.inl ⟨q, ⟨keys, hcall⟩, hq⟩
  | miss hc hl =>
    rcases update_some ht with ⟨rfl, hcall⟩ | ⟨-, hcall⟩
    · cases hcall
      exact Or.inr ⟨⟨_, _, rfl⟩, hl, rfl⟩
    · exact Or.inl ⟨q, ⟨keys, hcall⟩, hq⟩
  | evictFor | evictForSecret | sweepIdle => exact Or.inl ⟨q, ⟨keys, ht⟩, hq⟩

/-- The second section ends the window of its call. -/
theorem moves_insert_ends {i : CallId} {elapsed : Nat} {it : IterOrder D (ClientEntry C)}
    (h : Moves config s (.insert i elapsed it) t o) {p : Phase C} (hp : callFor t d i p) :
    p.inWindow = false := by
  obtain ⟨keys, hp⟩ := hp
  cases h with
  | lostRace hc hl | inserted hc hl hlru =>
    rcases update_some hp with ⟨-, hcall⟩ | ⟨hne, -⟩
    · cases hcall
      rfl
    · exact absurd rfl hne

theorem OneWindow.step (h : Moves config s a t o) (hw : OneWindow d s)
    (hserial : SerialLookup d ⟨s, a, o, t⟩) : OneWindow d t where
  unique := by
    intro i j p q hi hj hp hq
    rcases moves_inWindow h hi hp with ⟨p', hi', hp'⟩ | ⟨⟨keys, elapsed, ha⟩, hl, -⟩
    · rcases moves_inWindow h hj hq with ⟨q', hj', hq'⟩ | ⟨⟨keys, elapsed, ha⟩, hl, -⟩
      · exact hw.unique hi' hj' hp' hq'
      · rw [hserial j keys elapsed ha hl i p' hi'] at hp'
        cases hp'
    · rcases moves_inWindow h hj hq with ⟨q', hj', hq'⟩ | ⟨⟨keys', elapsed', ha'⟩, -, -⟩
      · rw [hserial i keys elapsed ha hl j q' hj'] at hq'
        cases hq'
      · rw [ha] at ha'
        cases ha'
        rfl
  absent := by
    intro i p hi hp
    rcases moves_inWindow h hi hp with ⟨p', hi', hp'⟩ | ⟨-, hl, hclients⟩
    · cases hl : t.clients.lookup d with
      | none => rfl
      | some e =>
        -- only a call for `d` could have inserted it, and that call is `i` itself
        rcases moves_entry h hl with ⟨e₀, he₀, -⟩ | ⟨j, elapsed, it, lru, ha, -, hc, -⟩
        · rw [hw.absent hi' hp'] at he₀
          cases he₀
        · have hij := hw.unique hi' ⟨_, hc⟩ hp' rfl
          subst hij
          subst ha
          rw [moves_insert_ends h hi] at hp
          cases hp
    · rw [hclients]
      exact hl

theorem run_oneWindow (h : (registryMachine D C config).Run hist s)
    (hserial : Along (fun _ => SerialLookup d) hist) : OneWindow d s := by
  refine h.inv_along (P := fun _ s => OneWindow d s) ?_ ?_ hserial
  · constructor
    · rintro i j p q ⟨keys, hi⟩
      cases hi
    · rintro i p ⟨keys, hi⟩
      cases hi
  · intro hist s a o t _ hst hw hn
    exact hw.step (registryNext_moves hn) hst

/-! ## Counting invocations -/

omit [DecidableEq D] in
theorem invocations_cons [DecidableEq D] (st : RegistryStep D C) :
    invocations d (st :: hist) = invocations d hist + (if invokesFor d st then 1 else 0) := by
  unfold invocations
  rw [List.filter_cons]
  split
  · rw [List.length_cons]
  · rfl

theorem invokesFor_moves (h : Moves config s a t o) (hi : invokesFor d ⟨s, a, o, t⟩ = true) :
    ∃ i, callFor s d i .missed ∧ callFor t d i .building := by
  cases h with
  | @invoked i digest credKeys hc =>
    simp only [invokesFor, hc, decide_eq_true_eq] at hi
    subst hi
    exact ⟨i, ⟨_, hc⟩, _, Function.update_self _ _ _⟩
  | hit hc hl | miss hc hl | built hc | failed hc | lostRace hc hl | inserted hc hl hlru
  | abandoned hc hp | evictFor | evictForSecret | sweepIdle => cases hi

/-- An invoked build stays under way until its digest is cached, if nothing
fails, drops or removes it. -/
theorem moves_invoked (h : Moves config s a t o) (htr : Traced hist s) {i : CallId} {p : Phase C}
    (hi : callFor s d i p) (hp : p.invoked = true) (hfail : ¬ FailsFor d ⟨s, a, o, t⟩)
    (hdrop : NotDropped d ⟨s, a, o, t⟩) (hrem : ¬ Removes d ⟨s, a, o, t⟩) :
    (∃ q, callFor t d i q ∧ q.invoked = true) ∨ ∃ e, t.clients.lookup d = some e := by
  obtain ⟨keys, hi⟩ := hi
  by_cases hcaller : a.caller = some i
  · cases h with
    | hit hc hl | miss hc hl =>
      cases hcaller
      rw [hi] at hc
      cases hc
    | invoked hc =>
      cases hcaller
      have hd := hi.symm.trans hc
      cases hd
      cases hp
    | built hc =>
      cases hcaller
      have hd := hi.symm.trans hc
      cases hd
      exact Or.inl ⟨_, ⟨_, Function.update_self _ _ _⟩, rfl⟩
    | failed hc =>
      cases hcaller
      have hd := hi.symm.trans hc
      cases hd
      exact absurd ⟨_, _, rfl, _, hi⟩ hfail
    | lostRace hc hl =>
      cases hcaller
      have hd := hi.symm.trans hc
      cases hd
      exact Or.inr ⟨_, AList.lookup_insert _⟩
    | @inserted j digest credKeys client elapsed it lru hc hl hlru =>
      cases hcaller
      have hd := hi.symm.trans hc
      cases hd
      refine Or.inr (Option.ne_none_iff_exists'.1 fun hnone => hrem ⟨Or.inr ?_, hnone⟩)
      exact ⟨client, keys, _, elapsed, it, lru, rfl, rfl, hc, (htr.built hc).1⟩
    | abandoned hc hp' =>
      cases hcaller
      exact absurd ⟨_, hi⟩ (hdrop _ _ rfl)
    | evictFor | evictForSecret | sweepIdle => cases hcaller
  · exact Or.inl ⟨p, ⟨keys, (moves_others h hcaller).trans hi⟩, hp⟩

/-- The builds for `d` counted so far: none while `d` is absent and no build is
under way. -/
structure Counted (d : D) (hist : List (RegistryStep D C)) (s : Registry D C) : Prop where
  le_one : invocations d hist ≤ 1
  accounted : invocations d hist = 1 →
    (∃ i p, callFor s d i p ∧ p.invoked = true) ∨ ∃ e, s.clients.lookup d = some e

theorem Phase.invoked_inWindow {p : Phase C} (h : p.invoked = true) : p.inWindow = true := by
  cases p with
  | building | built => rfl
  | missed | returned | abandoned => cases h

/-- The one call that is about to invoke its build is the first to do so. -/
theorem Counted.fresh (hn : Counted d hist s) (hw : OneWindow d s) {i : CallId}
    (hi : callFor s d i .missed) : invocations d hist = 0 := by
  have hle := hn.le_one
  by_contra hne
  rcases hn.accounted (by omega) with ⟨j, p, hj, hp⟩ | ⟨e, he⟩
  · have hij := hw.unique hi hj rfl (Phase.invoked_inWindow hp)
    subst hij
    obtain ⟨keys, hi⟩ := hi
    obtain ⟨keys', hj⟩ := hj
    rw [hi, Option.some.injEq] at hj
    cases hj
    cases hp
  · rw [hw.absent hi rfl] at he
    cases he

theorem Counted.step (h : Moves config s a t o) (htr : Traced hist s) (hw : OneWindow d s)
    (hn : Counted d hist s) (hfail : ¬ FailsFor d ⟨s, a, o, t⟩)
    (hdrop : NotDropped d ⟨s, a, o, t⟩) (hrem : ¬ Removes d ⟨s, a, o, t⟩) :
    Counted d (⟨s, a, o, t⟩ :: hist) t := by
  by_cases hinv : invokesFor d ⟨s, a, o, t⟩ = true
  · obtain ⟨i, hi, hi'⟩ := invokesFor_moves h hinv
    have hzero := hn.fresh hw hi
    constructor
    · rw [invocations_cons, if_pos hinv]
      omega
    · intro _
      exact Or.inl ⟨i, _, hi', rfl⟩
  · constructor
    · rw [invocations_cons, if_neg hinv]
      exact hn.le_one
    · rw [invocations_cons, if_neg hinv]
      intro hone
      rcases hn.accounted hone with ⟨i, p, hi, hp⟩ | ⟨e, he⟩
      · rcases moves_invoked h htr hi hp hfail hdrop hrem with ⟨q, hq, hq'⟩ | hc
        · exact Or.inl ⟨i, q, hq, hq'⟩
        · exact Or.inr hc
      · exact Or.inr (Option.ne_none_iff_exists'.1 fun hnone => hrem ⟨Or.inl ⟨e, he⟩, hnone⟩)

theorem run_counted (h : (registryMachine D C config).Run hist s)
    (hserial : Along (fun _ => SerialLookup d) hist) (hdrop : ∀ st ∈ hist, NotDropped d st)
    (hkeep : ∀ st ∈ hist, ¬ Removes d st ∧ ¬ FailsFor d st) : Counted d hist s := by
  induction h with
  | init => exact ⟨Nat.zero_le _, fun h => by cases h⟩
  | @step hist s t a o hr hn ih =>
    obtain ⟨-, hserial'⟩ := along_cons.1 hserial
    obtain ⟨hrem, hfail⟩ := hkeep _ List.mem_cons_self
    have hn' := ih hserial' (fun st hst => hdrop st (List.mem_cons_of_mem _ hst))
      fun st hst => hkeep st (List.mem_cons_of_mem _ hst)
    exact hn'.step (registryNext_moves hn) (run_traced hr) (run_oneWindow hr hserial') hfail
      (hdrop _ List.mem_cons_self) hrem

/-- **One build when cold callers are serial.**  If no first look at an absent
`d` is taken inside another call's window, builds for `d` run one at a time; if
moreover no call for `d` is dropped in its own window, there is only one build
while nothing removes `d` or fails. -/
theorem coldCallers_serial (config : ClientRegistryConfig)
    (h : (registryMachine D C config).Run hist s) (d : D)
    (hserial : ∀ st ∈ hist, SerialLookup d st) :
    OneBuildAtATime d s ∧ ((∀ st ∈ hist, NotDropped d st) → OneInvocation d hist) := by
  have halong : Along (fun _ => SerialLookup d) hist := by
    rintro newer st older rfl
    exact hserial st (List.mem_append_right _ List.mem_cons_self)
  constructor
  · intro i j hi hj
    exact (run_oneWindow h halong).unique hi hj rfl rfl
  · intro hdrop hkeep
    exact (run_counted h halong hdrop hkeep).le_one

/-- A cold caller, then a warm one. -/
def coldThenWarm : List (Action Nat Nat) :=
  [.lookup 0 7 [] 0, .invoke 0, .finish 0 (.ok 70), .insert 0 1 (.stored _ _), .lookup 1 7 [] 2]

theorem coldCallers_coldThenWarm :
    ∃ c, (registryMachine Nat Nat .default).exec coldThenWarm ([], Registry.new) = some c ∧
      OneBuildAtATime 7 c.2 ∧ OneInvocation 7 c.1 := by
  have hserial := coldCallers_serial .default (Machine.exec_init
    (show _ = some _ from rfl : (registryMachine Nat Nat .default).exec coldThenWarm _ = _)) 7 ?_
  · refine ⟨_, rfl, hserial.1, hserial.2 ?_⟩
    intro st hst i p ha
    simp only [List.mem_cons, List.not_mem_nil, or_false] at hst
    rcases hst with rfl | rfl | rfl | rfl | rfl
    all_goals cases ha
  · intro st hst
    simp only [List.mem_cons, List.not_mem_nil, or_false] at hst
    rcases hst with rfl | rfl | rfl | rfl | rfl
    all_goals
      intro i keys elapsed ha hl j p hj
      cases ha <;> cases hl <;> obtain ⟨keys, hj⟩ := hj <;> cases hj

/-- Two callers find digest 7 absent, and both build. -/
def twoCold : List (Action Nat Nat) :=
  [.lookup 0 7 [] 0, .lookup 1 7 [] 0, .invoke 0, .invoke 1]

theorem coldCallers_twoCold :
    ∃ c, (registryMachine Nat Nat .default).exec twoCold ([], Registry.new) = some c ∧
      ¬ OneBuildAtATime 7 c.2 ∧ ¬ OneInvocation 7 c.1 := by
  refine ⟨_, rfl, ?_, ?_⟩
  · intro h
    have h01 : (0 : CallId) = 1 := h 0 1 ⟨_, rfl⟩ ⟨_, rfl⟩
    cases h01
  · intro h
    refine absurd (h ?_) (by decide)
    intro st hst
    simp only [List.mem_cons, List.not_mem_nil, or_false] at hst
    rcases hst with rfl | rfl | rfl | rfl
    all_goals
      constructor
      · rintro ⟨⟨e, he⟩ | ⟨client, keys, i, elapsed, it, lru, ha, -⟩, -⟩
        · cases he
        · cases ha
      · rintro ⟨i, e, ha, -⟩
        cases ha

end NetCore
