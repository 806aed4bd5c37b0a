import Mathlib.Data.List.Perm.Basic
import NetCore.Profile

/-!
# Revocations and rotations reach the registry

A callback returns before anything is evicted.  The task it spawned waits for
the lock with the others and may run much later, in any order.  Still, when no
task of a notification's kind is left, what the notification hits and is cached
was inserted after its task ran (`notified_effective`); and the order in which the
tasks run does not matter (`tasks_confluent`).
-/

namespace NetCore

open HashTable StepSystem

variable {X : ExprApi} {D Ip : Type}

/-- The task a notification spawns; a rotation of a secret the profile does not
use spawns none. -/
def ProfileAction.spawns (rt : NetworkProfileRuntime X) :
    ProfileAction X D Ip → Option EvictionTask
  | .credentialRevoked pluginId target => some (.revoked pluginId target)
  | .secretRotated secretRef =>
    if rt.secretRefs.contains secretRef then some (.rotated secretRef) else none
  | _ => none

/-- The task a step runs. -/
def taskOf (st : ProfileStep X D Ip) : Option EvictionTask :=
  match st.label with
  | .runTask n _ => st.pre.tasks[n]?
  | _ => none

def spawned (rt : NetworkProfileRuntime X) (task : EvictionTask) (hist : List (ProfileStep X D Ip)) :
    Nat :=
  hist.countP fun st => st.label.spawns rt == some task

def ran (task : EvictionTask) (hist : List (ProfileStep X D Ip)) : Nat :=
  hist.countP fun st => taskOf st == some task

/-- The entries a task evicts, by their keys. -/
def EvictionTask.hits : EvictionTask → List (String × String) → Prop
  | .revoked pluginId target, credKeys => (pluginId, target) ∈ credKeys
  | .rotated _, _ => True

variable {U : UrlApi} {H : HeaderApi} {S : SecurityApi} [DecidableEq D] {hash : ByteArray → D}
  {rt : NetworkProfileRuntime X} {s t : ProfileState D S.Ip} {a : ProfileAction X D S.Ip}
  {o : ProfileShown D S.Ip} {hist : List (ProfileStep X D S.Ip)}

/-! ## One task -/

theorem count_eraseIdx {α : Type} [DecidableEq α] {l : List α} {n : Nat} {x : α}
    (h : l[n]? = some x) (y : α) :
    (l.eraseIdx n).count y + (if x = y then 1 else 0) = l.count y := by
  obtain ⟨hn, rfl⟩ := List.getElem?_eq_some_iff.1 h
  have hperm := List.getElem_cons_eraseIdx_perm hn
  have hcount := hperm.count_eq y
  rw [List.count_cons] at hcount
  simpa only [beq_iff_eq] using hcount

/-- One step: what is pending after it and run by it was pending before it or is
spawned by it. -/
theorem moves_tasks (h : ProfileMoves U H S hash rt s a t o) (task : EvictionTask) :
    t.tasks.count task + (if taskOf ⟨s, a, o, t⟩ == some task then 1 else 0) =
      s.tasks.count task + (if a.spawns rt == some task then 1 else 0) := by
  cases h with
  | revoked hsub =>
    simp [taskOf, ProfileAction.spawns, List.count_append, List.count_cons]
  | rotated hsub hmem =>
    simp [taskOf, ProfileAction.spawns, hmem, List.count_append, List.count_cons]
  | rotatedElsewhere hsub hmem => simp [taskOf, ProfileAction.spawns, hmem]
  | @taskRan n it x r shown htask hr =>
    have hcount := count_eraseIdx htask task
    simpa [taskOf, ProfileAction.spawns, htask] using hcount
  | cloned | dropped | droppedLast | revocationEnded | rotationEnded | cancelled | called | started
  | returned | ticked | pending | swept => rfl

/-- A task is one eviction section; it leaves what it does not hit. -/
theorem taskRan_registry {task : EvictionTask} {it : IterOrder D (ClientEntry (Client S.Ip))}
    {r r' : RuntimeState D S.Ip} {shown : RuntimeShown D S.Ip}
    (h : runtimeNext U H S hash rt r (task.action it) = some (r', shown)) :
    (∀ d e, r'.registry.clients.lookup d = some e ↔
      r.registry.clients.lookup d = some e ∧ ¬ task.hits e.credKeys) ∧
    (∃ count, shown = .registry (.evicted count) ∧
      length r'.registry.clients + count = length r.registry.clients) ∧
    r'.registry.calls = r.registry.calls ∧ r'.bundles = r.bundles := by
  cases task with
  | revoked p t =>
    cases h
    exact ⟨lookup_evictFor it r.registry.clients p t, ⟨_, rfl, length_evictFor it _ p t⟩, rfl, rfl⟩
  | rotated secretRef =>
    cases h
    refine ⟨?_, ⟨_, rfl, ?_⟩, rfl, rfl⟩
    · intro d e
      simp [evictForSecret, EvictionTask.hits]
    · simp [evictForSecret, length_empty]

omit [DecidableEq D] in
/-- The second section of a call is planned by that of the runtime only. -/
theorem plan_insert {r : RuntimeState D S.Ip} {action : RuntimeAction X D S.Ip} {i : CallId}
    {elapsed : Nat} {it : IterOrder D (ClientEntry (Client S.Ip))}
    {bundles : CallId → Option (CallKind × Bundle)}
    (h : plan U H S hash rt r action = some (.registry (.insert i elapsed it) bundles)) :
    action = .insert i elapsed it := by
  cases action with
  | insert j n it' => cases h; rfl
  | resolveClient | finish | secretRotated =>
    simp only [plan, planLookup] at h
    split at h <;> cases h
  | resolveStaticClient | invoke | abandon | credentialRevoked | evictForSecret | sweepIdle => cases h

omit [DecidableEq D] in
theorem runtimeAction_insert {i : CallId} {elapsed : Nat}
    {it : IterOrder D (ClientEntry (Client S.Ip))}
    (h : a.runtimeAction s = some (.insert i elapsed it)) : a = .call (.insert i elapsed it) := by
  cases a with
  | call action => cases h; rfl
  | runTask n it' =>
    obtain ⟨task, -, htask⟩ := Option.map_eq_some_iff.1 h
    cases task with
    | revoked | rotated => cases htask
  | clone | drop | unsubscribeRevocation | unsubscribeRotation | cancelSweeper | credentialRevoked
  | secretRotated | firstTick | pollSweeper | sweep => cases h

/-- A pending task can run, whichever it is. -/
theorem runTask_enabled (it : IterOrder D (ClientEntry (Client S.Ip))) {n : Nat}
    {task : EvictionTask} (h : s.tasks[n]? = some task) :
    ∃ t o, profileNext U H S hash rt s (.runTask n it) = some (t, o) ∧
      t.tasks = s.tasks.eraseIdx n := by
  cases task with
  | revoked | rotated =>
    simp only [profileNext, h]
    exact ⟨_, _, rfl, rfl⟩

/-! ## Spawned, run and pending -/

/-- Of each kind, as many tasks were spawned as have run or are pending. -/
theorem run_delivered (h : (profileMachine U H S hash rt).Run hist s) (task : EvictionTask) :
    spawned rt task hist = ran task hist + s.tasks.count task := by
  refine h.inv (P := fun hist s => spawned rt task hist = ran task hist + s.tasks.count task) rfl ?_
  intro hist s a o t _ ih hn
  have hstep := moves_tasks (profileNext_moves hn) task
  simp only [spawned, ran, List.countP_cons] at ih ⊢
  omega

/-! ## What a notification brings about -/

/-- The step is the second section of a call, and caches the call's client. -/
def InsertsClient (st : ProfileStep X D Ip) (client : Arc (Client Ip)) : Prop :=
  ∃ i elapsed it lru, st.label = .call (.insert i elapsed it) ∧
    st.out = .runtime (.registry (.inserted client lru))

/-- A cached entry was there before the step, stamp aside, or the step inserts it. -/
theorem profile_entry (h : ProfileMoves U H S hash rt s a t o) {d : D}
    {e : ClientEntry (Client S.Ip)} (he : t.runtime.registry.clients.lookup d = some e) :
    (∃ e₀, s.runtime.registry.clients.lookup d = some e₀ ∧ SameClient e e₀) ∨
      InsertsClient ⟨s, a, o, t⟩ e.client := by
  rcases moves_runtime h with ⟨action, shown, ha, rfl, hr⟩ | ⟨-, hsame⟩
  · rcases runtimeNext_cases hr with ⟨g, bundles, shown', hp, hg, -, rfl⟩ | ⟨hsame, -⟩
    · rcases moves_entry (registryNext_moves hg) he with
        hold | ⟨i, elapsed, it, lru, rfl, rfl, -⟩
      · exact Or.inl hold
      · refine Or.inr ⟨i, elapsed, it, lru, ?_, rfl⟩
        have haction := plan_insert hp
        subst haction
        exact runtimeAction_insert ha
    · rw [hsame] at he
      exact Or.inl ⟨e, he, .refl e⟩
  · rw [hsame] at he
    exact Or.inl ⟨e, he, .refl e⟩

/-- Since a step, an entry was inserted, or it was there right after the step. -/
theorem cached_since {later older : List (ProfileStep X D S.Ip)} {st : ProfileStep X D S.Ip}
    (h : (profileMachine U H S hash rt).Run (later ++ st :: older) s) {d : D}
    {e : ClientEntry (Client S.Ip)} (he : s.runtime.registry.clients.lookup d = some e) :
    (∃ ins ∈ later, InsertsClient ins e.client) ∨
      ∃ e₀, st.post.runtime.registry.clients.lookup d = some e₀ ∧ SameClient e e₀ := by
  induction later generalizing s e with
  | nil =>
    obtain ⟨-, -, rfl⟩ := Machine.run_cons.1 h
    exact Or.inr ⟨e, he, .refl e⟩
  | cons x later ih =>
    obtain ⟨hr, hn, rfl⟩ := Machine.run_cons.1 h
    rcases profile_entry (profileNext_moves hn) he with ⟨e₁, he₁, hsame⟩ | hins
    · rcases ih hr he₁ with ⟨ins, hm, hins⟩ | ⟨e₀, he₀, hsame₀⟩
      · rw [← hsame.1] at hins
        exact Or.inl ⟨ins, List.mem_cons_of_mem _ hm, hins⟩
      · exact Or.inr ⟨e₀, he₀, hsame.1.trans hsame₀.1, hsame.2.trans hsame₀.2⟩
    · exact Or.inl ⟨x, List.mem_cons_self, hins⟩

/-- Right after a task ran, nothing it hits is cached. -/
theorem moves_taskRan (h : ProfileMoves U H S hash rt s a t o) {task : EvictionTask}
    (htask : taskOf ⟨s, a, o, t⟩ = some task) {d : D} {e : ClientEntry (Client S.Ip)}
    (he : t.runtime.registry.clients.lookup d = some e) : ¬ task.hits e.credKeys := by
  cases h with
  | @taskRan n it x r shown hx hr =>
    have hsame : x = task := Option.some.inj (hx.symm.trans htask)
    subst hsame
    exact ((taskRan_registry hr).1 d e |>.1 he).2
  | cloned | dropped | droppedLast | revocationEnded | rotationEnded | cancelled | called | revoked
  | rotated | rotatedElsewhere | started | returned | ticked | pending | swept => cases htask

omit [DecidableEq D] in
/-- A step that spawns a task runs none. -/
theorem taskOf_of_spawns {st : ProfileStep X D Ip} {task : EvictionTask}
    (h : st.label.spawns rt = some task) : taskOf st = none := by
  obtain ⟨pre, label, out, post⟩ := st
  cases label with
  | runTask n it => cases h
  | clone | drop | unsubscribeRevocation | unsubscribeRotation | cancelSweeper | call
  | credentialRevoked | secretRotated | firstTick | pollSweeper | sweep => rfl

/-- With none of its kind pending, a notification has had a task run since. -/
theorem run_task_since {newer older : List (ProfileStep X D S.Ip)} {st : ProfileStep X D S.Ip}
    (h : (profileMachine U H S hash rt).Run (newer ++ st :: older) s) {task : EvictionTask}
    (hst : st.label.spawns rt = some task) (hnone : task ∉ s.tasks) :
    ∃ x ∈ newer, taskOf x = some task := by
  obtain ⟨hr, -⟩ := h.split
  have hall := run_delivered h task
  have hbefore := run_delivered hr task
  rw [List.count_eq_zero.2 hnone] at hall
  simp only [spawned, ran, List.countP_append, List.countP_cons, hst, taskOf_of_spawns hst]
    at hall hbefore
  have hpos : 0 < newer.countP fun x => taskOf x == some task := by
    simp only [BEq.rfl, if_true, reduceCtorEq, beq_iff_eq, if_false] at hall
    omega
  obtain ⟨x, hm, hx⟩ := List.countP_pos_iff.1 hpos
  exact ⟨x, hm, beq_iff_eq.1 hx⟩

/-- **A notification takes effect.**  In every reachable state in which no task of
its kind is pending, its task has run since, and whatever it hits and is cached
was inserted after that. -/
theorem notified_effective {newer older : List (ProfileStep X D S.Ip)} {st : ProfileStep X D S.Ip}
    (h : (profileMachine U H S hash rt).Run (newer ++ st :: older) s) {task : EvictionTask}
    (hst : st.label.spawns rt = some task) (hnone : task ∉ s.tasks) :
    ∃ later x mid, newer = later ++ x :: mid ∧ taskOf x = some task ∧
      ∀ d e, s.runtime.registry.clients.lookup d = some e → task.hits e.credKeys →
        ∃ ins ∈ later, InsertsClient ins e.client := by
  obtain ⟨x, hm, hx⟩ := run_task_since h hst hnone
  obtain ⟨later, mid, rfl⟩ := List.append_of_mem hm
  refine ⟨later, x, mid, rfl, hx, ?_⟩
  intro d e he hhits
  rw [List.append_assoc] at h
  rcases cached_since h he with hins | ⟨e₀, he₀, hsame⟩
  · exact hins
  · have hmoves := profileNext_moves h.split.2
    rw [hsame.2] at hhits
    exact absurd hhits (moves_taskRan hmoves hx he₀)

/-- The client of a call is built before the revocation, and cached after its task. -/
def revokedWhileBuilt : List (ProfileAction plainExprApi Bytes Ipv4) :=
  [.call (.resolveClient 0 () (bearerAnswer "t1") 0), .call (.invoke 0),
    .call (.finish 0 mixedAnswer), .credentialRevoked "oauth" "api\x7d", .runTask 0 (.stored _ _),
    .call (.insert 0 6 (.stored _ _))]

theorem notified_effective_revokedWhileBuilt :
    ∃ newer st older s, bearerProfile.exec revokedWhileBuilt ([], bearerProfile.init) =
        some (newer ++ st :: older, s) ∧
      ∃ later x mid, newer = later ++ x :: mid ∧ taskOf x = some (.revoked "oauth" "api\x7d") ∧
        ∀ d e, s.runtime.registry.clients.lookup d = some e →
          (EvictionTask.revoked "oauth" "api\x7d").hits e.credKeys →
          ∃ ins ∈ later, InsertsClient ins e.client := by
  obtain ⟨newer, st, older, s, hc, hst, hnone⟩ : ∃ newer st older s,
      bearerProfile.exec revokedWhileBuilt ([], bearerProfile.init) =
        some (newer ++ st :: older, s) ∧
      st.label.spawns bearerRuntime = some (.revoked "oauth" "api\x7d") ∧ s.tasks = [] :=
    ⟨[_, _], _, _, _, rfl, rfl, rfl⟩
  refine ⟨newer, st, older, s, hc, notified_effective (Machine.exec_init hc) hst ?_⟩
  rw [hnone]
  exact List.not_mem_nil

/-! ## The order of the tasks -/

def OnlyTasks (newer : List (ProfileStep X D Ip)) : Prop :=
  ∀ st ∈ newer, ∃ n it, st.label = .runTask n it

/-- What the evictions among the steps counted. -/
def evictedBy (newer : List (ProfileStep X D Ip)) : Nat :=
  (newer.map fun st =>
    match st.out with
    | .runtime (.registry (.evicted count)) => count
    | _ => 0).sum

/-- The state after some of the pending tasks, whatever their order: `ran` are
those that have run. -/
structure Drained (ran : List EvictionTask) (evicted : Nat) (s t : ProfileState D Ip) : Prop where
  tasks : s.tasks.Perm (ran ++ t.tasks)
  lookup : ∀ d e, t.runtime.registry.clients.lookup d = some e ↔
    s.runtime.registry.clients.lookup d = some e ∧ ∀ task ∈ ran, ¬ task.hits e.credKeys
  total : length t.runtime.registry.clients + evicted = length s.runtime.registry.clients
  calls : t.runtime.registry.calls = s.runtime.registry.calls
  bundles : t.runtime.bundles = s.runtime.bundles

/-- One task more. -/
theorem Drained.step {ran : List EvictionTask} {evicted n : Nat} {s₀ : ProfileState D S.Ip}
    {it : IterOrder D (ClientEntry (Client S.Ip))} (hd : Drained ran evicted s₀ s)
    (h : ProfileMoves U H S hash rt s (.runTask n it) t o) :
    ∃ task count, s.tasks[n]? = some task ∧ o = .runtime (.registry (.evicted count)) ∧
      Drained (task :: ran) (count + evicted) s₀ t := by
  cases h with
  | @taskRan n it task r shown htask hr =>
    obtain ⟨hlookup, ⟨count, rfl, hlen⟩, hcalls, hbundles⟩ := taskRan_registry hr
    refine ⟨task, count, htask, rfl, ?_, ?_, ?_, hcalls.trans hd.calls, hbundles.trans hd.bundles⟩
    · obtain ⟨hn, rfl⟩ := List.getElem?_eq_some_iff.1 htask
      have hperm : s.tasks.Perm (s.tasks[n] :: s.tasks.eraseIdx n) :=
        (List.getElem_cons_eraseIdx_perm hn).symm
      exact hd.tasks.trans ((hperm.append_left ran).trans List.perm_middle)
    · intro d e
      rw [hlookup, hd.lookup, List.forall_mem_cons]
      constructor
      · rintro ⟨⟨he, hran⟩, hnot⟩
        exact ⟨he, hnot, hran⟩
      · rintro ⟨he, hnot, hran⟩
        exact ⟨⟨he, hran⟩, hnot⟩
    · have := hd.total
      show length r.registry.clients + (count + evicted) = _
      omega

theorem run_drained {newer : List (ProfileStep X D S.Ip)} {s₀ : ProfileState D S.Ip}
    (h₀ : (profileMachine U H S hash rt).Run hist s₀)
    (h : (profileMachine U H S hash rt).Run (newer ++ hist) s) (hall : OnlyTasks newer) :
    Drained (newer.filterMap taskOf) (evictedBy newer) s₀ s := by
  induction newer generalizing s with
  | nil =>
    have hs := h.state_unique h₀
    subst hs
    exact ⟨.refl _, fun d e => by simp, rfl, rfl, rfl⟩
  | cons st newer ih =>
    obtain ⟨hr, hn, rfl⟩ := Machine.run_cons.1 h
    obtain ⟨n, it, hl⟩ := hall st List.mem_cons_self
    have hd := ih hr fun x hx => hall x (List.mem_cons_of_mem _ hx)
    obtain ⟨pre, label, out, post⟩ := st
    simp only at hl
    subst hl
    obtain ⟨task, count, htask, rfl, hd'⟩ := hd.step (profileNext_moves hn)
    have hran : (⟨pre, .runTask n it, .runtime (.registry (.evicted count)), post⟩ ::
        newer).filterMap taskOf = task :: newer.filterMap taskOf :=
      List.filterMap_cons_some htask
    rw [hran]
    exact hd'

/-- **The order of the tasks does not matter.**  From any reachable state, any two
ways to run all pending tasks leave the same clients under the same digests, and
have evicted as many. -/
theorem tasks_confluent {newer newer' : List (ProfileStep X D S.Ip)} {s' : ProfileState D S.Ip}
    (h : (profileMachine U H S hash rt).Run (newer ++ hist) s)
    (h' : (profileMachine U H S hash rt).Run (newer' ++ hist) s')
    (hall : OnlyTasks newer) (hall' : OnlyTasks newer') (hdone : s.tasks = [])
    (hdone' : s'.tasks = []) :
    (∀ d, s.runtime.registry.clients.lookup d = s'.runtime.registry.clients.lookup d) ∧
      evictedBy newer = evictedBy newer' ∧
      s.runtime.registry.calls = s'.runtime.registry.calls ∧
      s.runtime.bundles = s'.runtime.bundles := by
  obtain ⟨s₀, h₀⟩ := h.older
  have hd := run_drained h₀ h hall
  have hd' := run_drained h₀ h' hall'
  have hperm : (newer.filterMap taskOf).Perm (newer'.filterMap taskOf) := by
    have h1 := hd.tasks
    have h2 := hd'.tasks
    rw [hdone, List.append_nil] at h1
    rw [hdone', List.append_nil] at h2
    exact h1.symm.trans h2
  have hlookup : ∀ d, s.runtime.registry.clients.lookup d =
      s'.runtime.registry.clients.lookup d := by
    intro d
    apply Option.ext
    intro e
    apply (hd.lookup d e).trans
    rw [hd'.lookup d e]
    simp only [hperm.mem_iff]
  refine ⟨hlookup, ?_, hd.calls.trans hd'.calls.symm, hd.bundles.trans hd'.bundles.symm⟩
  have hlen := length_eq_of_lookup hlookup
  have h1 := hd.total
  have h2 := hd'.total
  omega

def twoPending : List (ProfileAction plainExprApi Bytes Ipv4) :=
  [.call (.resolveStaticClient 0 0), .call (.invoke 0), .call (.finish 0 mixedAnswer),
    .call (.insert 0 6 (.stored _ _)), .credentialRevoked "oauth" "api",
    .credentialRevoked "sts" "hook"]

theorem tasks_confluent_twoPending :
    ∃ hist newer newer' s s', bearerProfile.Run (newer ++ hist) s ∧
      bearerProfile.Run (newer' ++ hist) s' ∧
      newer.filterMap taskOf = [.revoked "sts" "hook", .revoked "oauth" "api"] ∧
      newer'.filterMap taskOf = [.revoked "oauth" "api", .revoked "sts" "hook"] ∧
      (∀ d, s.runtime.registry.clients.lookup d = s'.runtime.registry.clients.lookup d) ∧
      evictedBy newer = evictedBy newer' := by
  obtain ⟨⟨hist, s₀⟩, hc, htasks⟩ : ∃ c, bearerProfile.exec twoPending ([], bearerProfile.init) =
      some c ∧ c.2.tasks = [.revoked "oauth" "api", .revoked "sts" "hook"] := ⟨_, rfl, rfl⟩
  have h₀ := Machine.exec_init hc
  have hdrain : ∀ n task task', s₀.tasks[n]? = some task → s₀.tasks.eraseIdx n = [task'] →
      ∃ newer s, bearerProfile.Run (newer ++ hist) s ∧ newer.filterMap taskOf = [task', task] ∧
        OnlyTasks newer ∧ s.tasks = [] := by
    intro n task task' hn hrest
    obtain ⟨t, o, hs, ht⟩ : ∃ t o, bearerProfile.next s₀ (.runTask n (.stored _ _)) = some (t, o) ∧
        t.tasks = s₀.tasks.eraseIdx n :=
      runTask_enabled (U := plainUrlApi) (H := plainHeaderApi) (S := plainSecurityApi) _ hn
    have hn' : t.tasks[0]? = some task' := by rw [ht, hrest]; rfl
    obtain ⟨u, o', hu, hdone⟩ : ∃ u o', bearerProfile.next t (.runTask 0 (.stored _ _)) =
        some (u, o') ∧ u.tasks = t.tasks.eraseIdx 0 :=
      runTask_enabled (U := plainUrlApi) (H := plainHeaderApi) (S := plainSecurityApi) _ hn'
    refine ⟨[⟨t, _, o', u⟩, ⟨s₀, _, o, t⟩], u, .step (.step h₀ hs) hu, ?_, ?_, ?_⟩
    · simp [taskOf, hn, hn']
    · intro st hst
      simp only [List.mem_cons, List.not_mem_nil, or_false] at hst
      rcases hst with rfl | rfl
      · exact ⟨_, _, rfl⟩
      · exact ⟨_, _, rfl⟩
    · rw [hdone, ht, hrest]
      rfl
  have hfirst : s₀.tasks[0]? = some (.revoked "oauth" "api") := congrArg (·[0]?) htasks
  have hsecond : s₀.tasks[1]? = some (.revoked "sts" "hook") := congrArg (·[1]?) htasks
  obtain ⟨newer, s, h, hran, hall, hdone⟩ := hdrain 0 _ _ hfirst (congrArg (·.eraseIdx 0) htasks)
  obtain ⟨newer', s', h', hran', hall', hdone'⟩ :=
    hdrain 1 _ _ hsecond (congrArg (·.eraseIdx 1) htasks)
  have hconf := tasks_confluent h h' hall hall' hdone hdone'
  exact ⟨hist, newer, newer', s, s', h, h', hran, hran', hconf.1, hconf.2.1⟩

end NetCore
