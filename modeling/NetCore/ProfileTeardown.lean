import NetCore.ProfileDelivery

/-!
# The end of a profile

A call in progress has a handle on loan, and a handle keeps the callbacks and
the sweeper.  So they outlive every call (`run_lifetime`); and once the token is
cancelled nothing is left that could start anything: as many steps remain as
`workLeft` counts, one of them is always enabled, at most one is a sweep, and
none caches a client (`teardown_completes`).
-/

namespace NetCore

open HashTable StepSystem

variable {X : ExprApi} {D Ip : Type}

theorem mem_loans {borrows : List CallId} (hnd : borrows.Nodup) (i j : CallId)
    (registry : Registry D (Client Ip)) :
    j ∈ loans borrows i registry ↔
      if j = i then registry.inProgress i = true else j ∈ borrows := by
  unfold loans
  by_cases hji : j = i
  · subst hji
    by_cases hp : registry.inProgress j = true
    · simp [hp]
    · simp [hp, hnd.mem_erase_iff]
  · by_cases hp : registry.inProgress i = true
    · simp [hp, hji, hnd.mem_erase_iff]
    · simp [hp, hji, hnd.mem_erase_iff]

theorem nodup_loans {borrows : List CallId} (hnd : borrows.Nodup) (i : CallId)
    (registry : Registry D (Client Ip)) : (loans borrows i registry).Nodup := by
  unfold loans
  split
  · exact List.nodup_cons.2 ⟨hnd.not_mem_erase, hnd.erase i⟩
  · exact hnd.erase i

/-! ## What keeps what -/

/-- A handle keeps the callbacks and the sweeper; they end in the order of the
runtime's fields; the loans are those of the calls in progress. -/
structure Lifetime (s : ProfileState D Ip) : Prop where
  revocationSub : 0 < s.handles → s.revocationSub = true
  rotationSub : s.revocationSub = true → s.rotationSub = true
  cancelled : s.rotationSub = true → s.cancelled = false
  sweeper : s.cancelled = false → s.sweeper ≠ .returned
  nodup : s.borrows.Nodup
  loans : ∀ i, i ∈ s.borrows ↔ s.runtime.registry.inProgress i = true
  held : s.borrows ≠ [] → 0 < s.handles

variable {U : UrlApi} {H : HeaderApi} {S : SecurityApi} [DecidableEq D] {hash : ByteArray → D}
  {rt : NetworkProfileRuntime X} {s t : ProfileState D S.Ip} {a : ProfileAction X D S.Ip}
  {o : ProfileShown D S.Ip} {hist : List (ProfileStep X D S.Ip)}

omit [DecidableEq D] in
/-- The registry's step is that of the same call, or of none. -/
theorem plan_caller {r : RuntimeState D S.Ip} {action : RuntimeAction X D S.Ip}
    {g : Action D (Client S.Ip)} {bundles : CallId → Option (CallKind × Bundle)}
    (h : plan U H S hash rt r action = some (.registry g bundles)) : g.caller = action.caller := by
  cases action with
  | resolveClient i exprCtx answer elapsed =>
    simp only [plan, planLookup] at h
    split at h <;> cases h
    rfl
  | finish i answer =>
    simp only [plan] at h
    split at h <;> cases h
    rfl
  | secretRotated secretRef =>
    simp only [plan] at h
    split at h <;> cases h
    rfl
  | resolveStaticClient | invoke | insert | abandon | credentialRevoked | evictForSecret
  | sweepIdle => cases h; rfl

/-- A step of the runtime moves its own call only. -/
theorem runtimeNext_others {r r' : RuntimeState D S.Ip} {action : RuntimeAction X D S.Ip}
    {shown : RuntimeShown D S.Ip} (h : runtimeNext U H S hash rt r action = some (r', shown))
    {i : CallId} (hi : action.caller ≠ some i) : r'.registry.calls i = r.registry.calls i := by
  rcases runtimeNext_cases h with ⟨g, bundles, shown', hp, hg, -, -⟩ | ⟨rfl, -⟩
  · rw [← plan_caller hp] at hi
    exact moves_others (registryNext_moves hg) hi
  · rfl

omit [DecidableEq D] in
theorem inProgress_congr {C : Type} {r r' : Registry D C} {i : CallId}
    (h : r'.calls i = r.calls i) : r'.inProgress i = r.inProgress i := by
  unfold Registry.inProgress
  rw [h]

/-- A section of no call leaves the calls in progress as they are. -/
theorem Lifetime.background {r : RuntimeState D S.Ip} {action : RuntimeAction X D S.Ip}
    {shown : RuntimeShown D S.Ip} (hl : Lifetime s)
    (h : runtimeNext U H S hash rt s.runtime action = some (r, shown))
    (hc : action.caller = none) (i : CallId) :
    i ∈ s.borrows ↔ r.registry.inProgress i = true := by
  have hother : action.caller ≠ some i := by
    rw [hc]
    exact nofun
  rw [inProgress_congr (runtimeNext_others h hother)]
  exact hl.loans i

theorem Lifetime.step (hl : Lifetime s) (h : ProfileMoves U H S hash rt s a t o) : Lifetime t := by
  cases h with
  | cloned hpos =>
    exact { hl with
      revocationSub := fun _ => hl.revocationSub hpos
      held := fun _ => Nat.succ_pos _ }
  | dropped hmany =>
    exact { hl with
      revocationSub := fun _ => hl.revocationSub (by omega)
      held := fun _ => by show 0 < s.handles - 1; omega }
  | droppedLast hlast hnone =>
    exact { hl with
      revocationSub := fun hpos => absurd hpos (Nat.lt_irrefl 0)
      held := fun hne => absurd hnone hne }
  | revocationEnded hz hsub =>
    exact { hl with
      revocationSub := fun hpos => absurd hpos (by show ¬ 0 < s.handles; omega)
      rotationSub := nofun }
  | rotationEnded hz hrev hsub =>
    exact { hl with
      rotationSub := fun hr => absurd (hrev.symm.trans hr) Bool.false_ne_true
      cancelled := nofun }
  | cancelled hz hrot hc =>
    exact { hl with
      cancelled := fun hr => absurd (hrot.symm.trans hr) Bool.false_ne_true
      sweeper := nofun }
  | @called action i r shown hi hpos hr =>
    refine { hl with nodup := nodup_loans hl.nodup i _, loans := ?_, held := fun _ => hpos }
    intro j
    rw [mem_loans hl.nodup]
    by_cases hji : j = i
    · rw [if_pos hji, hji]
    · have hother : action.caller ≠ some j := by
        rw [hi]
        exact fun e => hji (Option.some.inj e).symm
      rw [if_neg hji, hl.loans j, inProgress_congr (runtimeNext_others hr hother)]
  | revoked hsub | rotated hsub hmem => exact { hl with }
  | rotatedElsewhere hsub hmem => exact hl
  | @taskRan n it task r shown htask hr =>
    refine { hl with loans := hl.background hr ?_ }
    cases task with
    | revoked | rotated => rfl
  | started hsw => exact { hl with sweeper := fun _ => nofun }
  | returned hsw hc =>
    exact { hl with sweeper := fun hn => absurd (hc.symm.trans hn) (by decide) }
  | ticked hsw hc => exact { hl with sweeper := fun _ => nofun }
  | pending hsw hc => exact hl
  | swept hsw hr =>
    exact { hl with
      sweeper := fun _ => nofun
      loans := hl.background hr rfl }

omit [DecidableEq D] in
theorem registered_lifetime : Lifetime (ProfileState.registered : ProfileState D Ip) where
  revocationSub _ := rfl
  rotationSub _ := rfl
  cancelled _ := rfl
  sweeper _ := nofun
  nodup := List.nodup_nil
  loans i := by simp [ProfileState.registered, Registry.inProgress, Registry.new]
  held h := absurd rfl h

theorem run_lifetime (h : (profileMachine U H S hash rt).Run hist s) : Lifetime s := by
  refine h.inv (P := fun _ s => Lifetime s) registered_lifetime ?_
  intro hist s a o t _ hl hn
  exact hl.step (profileNext_moves hn)

/-- **The background outlives the calls.**  As long as a clone is held or a call is
in progress, both callbacks are subscribed and the sweeper runs. -/
theorem background_outlives_calls (h : (profileMachine U H S hash rt).Run hist s)
    (hheld : 0 < s.handles ∨ ∃ i, s.runtime.registry.inProgress i = true) :
    s.revocationSub = true ∧ s.rotationSub = true ∧ s.cancelled = false ∧
      s.sweeper ≠ .returned := by
  have hl := run_lifetime h
  have hpos : 0 < s.handles := by
    rcases hheld with hpos | ⟨i, hi⟩
    · exact hpos
    · exact hl.held (List.ne_nil_of_mem ((hl.loans i).2 hi))
  have hrev := hl.revocationSub hpos
  have hrot := hl.rotationSub hrev
  have hc := hl.cancelled hrot
  exact ⟨hrev, hrot, hc, hl.sweeper hc⟩

/-- A second clone is dropped while a call builds its client. -/
def droppedWhileBuilding : List (ProfileAction plainExprApi Bytes Ipv4) :=
  [.firstTick, .clone, .call (.resolveStaticClient 0 0), .drop, .call (.invoke 0)]

theorem background_outlives_calls_droppedWhileBuilding :
    ∃ c, bearerProfile.exec droppedWhileBuilding ([], bearerProfile.init) = some c ∧
      c.2.runtime.registry.inProgress 0 = true ∧ c.2.revocationSub = true ∧
      c.2.rotationSub = true ∧ c.2.cancelled = false ∧ c.2.sweeper ≠ .returned := by
  obtain ⟨c, hc, hi⟩ : ∃ c, bearerProfile.exec droppedWhileBuilding ([], bearerProfile.init) =
      some c ∧ c.2.runtime.registry.inProgress 0 = true := ⟨_, rfl, rfl⟩
  exact ⟨c, hc, hi, background_outlives_calls (Machine.exec_init hc) (Or.inr ⟨0, hi⟩)⟩

/-! ## After the cancellation -/

/-- The steps the sweeper still takes once its token is cancelled. -/
def Sweeper.rank : Sweeper → Nat
  | .starting | .sweeping => 2
  | .waiting => 1
  | .returned => 0

def Sweeper.sweepsLeft : Sweeper → Nat
  | .sweeping => 1
  | _ => 0

def workLeft (s : ProfileState D Ip) : Nat := s.tasks.length + s.sweeper.rank

def ProfileAction.sweeps : ProfileAction X D Ip → Nat
  | .sweep _ _ => 1
  | _ => 0

def sweepCount (hist : List (ProfileStep X D Ip)) : Nat := (hist.map fun st => st.label.sweeps).sum

omit [DecidableEq D] in
/-- The token is cancelled last. -/
theorem Lifetime.released (hl : Lifetime s) (hc : s.cancelled = true) :
    s.handles = 0 ∧ s.revocationSub = false ∧ s.rotationSub = false := by
  have hrot : s.rotationSub = false := by
    by_contra hne
    rw [hl.cancelled (Bool.of_not_eq_false hne)] at hc
    cases hc
  have hrev : s.revocationSub = false := by
    by_contra hne
    rw [hl.rotationSub (Bool.of_not_eq_false hne)] at hrot
    cases hrot
  refine ⟨?_, hrev, hrot⟩
  by_contra hne
  rw [hl.revocationSub (Nat.pos_of_ne_zero hne)] at hrev
  cases hrev

/-- Each step does a piece of the work left, and caches nothing. -/
theorem moves_released (hl : Lifetime s) (hc : s.cancelled = true)
    (h : ProfileMoves U H S hash rt s a t o) :
    t.cancelled = true ∧ workLeft t + 1 = workLeft s ∧
      t.sweeper.sweepsLeft + a.sweeps ≤ s.sweeper.sweepsLeft ∧
      ∀ d e, t.runtime.registry.clients.lookup d = some e →
        s.runtime.registry.clients.lookup d = some e := by
  obtain ⟨hz, hrev, hrot⟩ := hl.released hc
  cases h with
  | cloned hpos | called hi hpos hr => omega
  | dropped hmany => omega
  | droppedLast hlast hnone => omega
  | revocationEnded hz' hsub | revoked hsub =>
    rw [hrev] at hsub
    cases hsub
  | rotationEnded hz' hrev' hsub | rotated hsub hmem | rotatedElsewhere hsub hmem =>
    rw [hrot] at hsub
    cases hsub
  | cancelled hz' hrot' hc' | ticked hsw hc' | pending hsw hc' =>
    rw [hc] at hc'
    cases hc'
  | @taskRan n it task r shown htask hr =>
    obtain ⟨hn, -⟩ := List.getElem?_eq_some_iff.1 htask
    refine ⟨hc, ?_, Nat.le_refl _, fun d e he => ((taskRan_registry hr).1 d e |>.1 he).1⟩
    show (s.tasks.eraseIdx n).length + s.sweeper.rank + 1 = s.tasks.length + s.sweeper.rank
    rw [List.length_eraseIdx_of_lt hn]
    omega
  | started hsw =>
    refine ⟨hc, ?_, Nat.zero_le _, fun d e he => he⟩
    simp only [workLeft, hsw, Sweeper.rank]
  | returned hsw hc' =>
    refine ⟨hc, ?_, Nat.zero_le _, fun d e he => he⟩
    simp only [workLeft, hsw, Sweeper.rank]
  | @swept elapsed it r shown hsw hr =>
    cases hr
    refine ⟨hc, ?_, ?_, ?_⟩
    · simp only [workLeft, hsw, Sweeper.rank]
    · simp only [hsw, Sweeper.sweepsLeft, ProfileAction.sweeps]
      omega
    · intro d e he
      exact ((lookup_sweepIdle _ _ _ _ _ _).1 he).1

/-- While work is left, a step that does some of it can run. -/
theorem released_progress (hc : s.cancelled = true) (hwork : workLeft s ≠ 0) :
    ∃ a t o, profileNext U H S hash rt s a = some (t, o) := by
  cases htasks : s.tasks with
  | cons task tasks =>
    have hget : s.tasks[0]? = some task := by rw [htasks]; rfl
    obtain ⟨t, o, hs, -⟩ := runTask_enabled (.stored _ _) hget
    exact ⟨_, t, o, hs⟩
  | nil =>
    cases hsw : s.sweeper with
    | starting =>
      refine ⟨.firstTick, ?_⟩
      simp only [profileNext, hsw]
      exact ⟨_, _, rfl⟩
    | waiting =>
      refine ⟨.pollSweeper false, ?_⟩
      simp only [profileNext, hsw, hc, if_true]
      exact ⟨_, _, rfl⟩
    | sweeping =>
      refine ⟨.sweep 0 (.stored _ _), ?_⟩
      simp only [profileNext, hsw]
      exact ⟨_, _, rfl⟩
    | returned =>
      simp only [workLeft, htasks, hsw, Sweeper.rank, List.length_nil] at hwork
      omega

theorem run_released {newer : List (ProfileStep X D S.Ip)}
    (h₀ : (profileMachine U H S hash rt).Run hist s) (hc : s.cancelled = true)
    (h : (profileMachine U H S hash rt).Run (newer ++ hist) t) :
    t.cancelled = true ∧ newer.length + workLeft t = workLeft s ∧
      t.sweeper.sweepsLeft + sweepCount newer ≤ s.sweeper.sweepsLeft ∧
      ∀ d e, t.runtime.registry.clients.lookup d = some e →
        s.runtime.registry.clients.lookup d = some e := by
  induction newer generalizing t with
  | nil =>
    have hs := h.state_unique h₀
    subst hs
    exact ⟨hc, by simp, by simp [sweepCount], fun d e he => he⟩
  | cons st newer ih =>
    obtain ⟨hr, hn, rfl⟩ := Machine.run_cons.1 h
    obtain ⟨hc', hwork, hsweeps, hkept⟩ := ih hr
    obtain ⟨hc'', hwork', hsweeps', hkept'⟩ :=
      moves_released (run_lifetime hr) hc' (profileNext_moves hn)
    refine ⟨hc'', ?_, ?_, fun d e he => hkept d e (hkept' d e he)⟩
    · rw [List.length_cons]
      omega
    · simp only [sweepCount, List.map_cons, List.sum_cons] at hsweeps ⊢
      omega

/-- **The teardown completes.**  From every reachable state with the token
cancelled: however the run goes on, it takes one step for each piece of work
left, of which at most one is a sweep, and caches no client; while work is left a
step can run; and when none is, every task has run and the sweeper has returned. -/
theorem teardown_completes (h : (profileMachine U H S hash rt).Run hist s)
    (hc : s.cancelled = true) :
    (∀ newer t, (profileMachine U H S hash rt).Run (newer ++ hist) t →
      newer.length + workLeft t = workLeft s ∧ sweepCount newer ≤ s.sweeper.sweepsLeft ∧
        ∀ d e, t.runtime.registry.clients.lookup d = some e →
          s.runtime.registry.clients.lookup d = some e) ∧
    (workLeft s ≠ 0 → ∃ a t o, (profileMachine U H S hash rt).next s a = some (t, o)) ∧
    (workLeft s = 0 → s.tasks = [] ∧ s.sweeper = .returned) := by
  refine ⟨?_, fun hwork => released_progress hc hwork, ?_⟩
  · intro newer t ht
    obtain ⟨-, hwork, hsweeps, hkept⟩ := run_released h hc ht
    exact ⟨hwork, by omega, hkept⟩
  · intro hwork
    unfold workLeft at hwork
    refine ⟨List.length_eq_zero_iff.1 (by omega), ?_⟩
    cases hsw : s.sweeper with
    | returned => rfl
    | starting | waiting | sweeping =>
      rw [hsw] at hwork
      simp only [Sweeper.rank] at hwork
      omega

/-- The last handle goes with a tick taken and a task pending. -/
def tornDown : List (ProfileAction plainExprApi Bytes Ipv4) :=
  [.firstTick, .credentialRevoked "oauth" "api", .pollSweeper true, .drop, .unsubscribeRevocation,
    .unsubscribeRotation, .cancelSweeper]

theorem teardown_completes_tornDown :
    ∃ c, bearerProfile.exec tornDown ([], bearerProfile.init) = some c ∧ workLeft c.2 = 3 ∧
      (∀ newer t, bearerProfile.Run (newer ++ c.1) t →
        newer.length + workLeft t = workLeft c.2 ∧ sweepCount newer ≤ c.2.sweeper.sweepsLeft ∧
          ∀ d e, t.runtime.registry.clients.lookup d = some e →
            c.2.runtime.registry.clients.lookup d = some e) ∧
      ∃ a t o, bearerProfile.next c.2 a = some (t, o) := by
  obtain ⟨c, hc, hcancel, hwork⟩ : ∃ c, bearerProfile.exec tornDown ([], bearerProfile.init) =
      some c ∧ c.2.cancelled = true ∧ workLeft c.2 = 3 := ⟨_, rfl, rfl, rfl⟩
  have h := teardown_completes (Machine.exec_init hc) hcancel
  exact ⟨c, hc, hwork, h.1, h.2.1 (hwork ▸ by decide)⟩

end NetCore
