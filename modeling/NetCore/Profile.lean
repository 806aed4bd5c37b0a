import NetCore.RegistryLive
import NetCore.RuntimeRuns

/-!
# A profile and its background tasks

`register` hands out a `NetworkProfileRuntime` and leaves three things behind
that act on its registry by themselves: two callbacks at the host, which do not
evict but spawn a task that will, and the idle sweeper.  All three are held by
every clone of the runtime and end with the last one, in the order of its
fields.

    starting --first tick--> waiting --tick--> sweeping --sweep--> waiting
                             waiting --cancelled--> returned

A step of the profile is a step of the runtime, or leaves it alone
(`run_runtime`).
-/

namespace NetCore

open HashTable StepSystem

/-- A task a host callback spawned. -/
inductive EvictionTask
  | revoked (pluginId target : String)
  | rotated (secretRef : String)
deriving DecidableEq, Repr

/-- Where `idle_sweep_loop` is. -/
inductive Sweeper
  /-- before the first tick, outside the `select!` -/
  | starting
  | waiting
  /-- a tick was taken; `sweep_idle` runs to its end -/
  | sweeping
  | returned
deriving DecidableEq, Repr

structure ProfileState (D Ip : Type) where
  runtime : RuntimeState D Ip
  /-- the clones of the runtime -/
  handles : Nat
  /-- the calls in progress; each has a handle on loan -/
  borrows : List CallId
  revocationSub : Bool
  rotationSub : Bool
  /-- the sweeper's token -/
  cancelled : Bool
  tasks : List EvictionTask
  sweeper : Sweeper

/-- What `register` returns. -/
def ProfileState.registered {D Ip : Type} : ProfileState D Ip where
  runtime := ⟨Registry.new, fun _ => none⟩
  handles := 1
  borrows := []
  revocationSub := true
  rotationSub := true
  cancelled := false
  tasks := []
  sweeper := .starting

inductive ProfileAction (X : ExprApi) (D Ip : Type)
  | clone
  | drop
  | unsubscribeRevocation
  | unsubscribeRotation
  | cancelSweeper
  /-- a step of a `resolve_client` or `resolve_static_client` call -/
  | call (action : RuntimeAction X D Ip)
  | credentialRevoked (pluginId target : String)
  | secretRotated (secretRef : String)
  | runTask (n : Nat) (it : IterOrder D (ClientEntry (Client Ip)))
  | firstTick
  | pollSweeper (tickReady : Bool)
  | sweep (elapsed : Nat) (it : IterOrder D (ClientEntry (Client Ip)))

inductive ProfileShown (D Ip : Type)
  | runtime (shown : RuntimeShown D Ip)
  | quiet

variable {X : ExprApi} {D Ip : Type}

/-- The call a step belongs to. -/
def RuntimeAction.caller : RuntimeAction X D Ip → Option CallId
  | .resolveClient i _ _ _ | .resolveStaticClient i _ | .invoke i | .finish i _ | .insert i _ _
  | .abandon i => some i
  | _ => none

def Registry.inProgress {C : Type} (s : Registry D C) (i : CallId) : Bool :=
  match s.calls i with
  | some c => !c.phase.ended
  | none => false

/-- The calls with a loan after a step of call `i`. -/
def loans (borrows : List CallId) (i : CallId) (registry : Registry D (Client Ip)) : List CallId :=
  if registry.inProgress i then i :: borrows.erase i else borrows.erase i

/-- The lock section a task runs. -/
def EvictionTask.action (it : IterOrder D (ClientEntry (Client Ip))) :
    EvictionTask → RuntimeAction X D Ip
  | .revoked pluginId target => .credentialRevoked pluginId target it
  | .rotated secretRef => .evictForSecret secretRef

variable (U : UrlApi) (H : HeaderApi) (S : SecurityApi) [DecidableEq D] (hash : ByteArray → D)
  (rt : NetworkProfileRuntime X)

def profileNext (s : ProfileState D S.Ip) :
    ProfileAction X D S.Ip → Option (ProfileState D S.Ip × ProfileShown D S.Ip)
  | .clone => if 0 < s.handles then some ({ s with handles := s.handles + 1 }, .quiet) else none
  | .drop =>
    if 1 < s.handles then some ({ s with handles := s.handles - 1 }, .quiet)
    -- a call on loan keeps the last handle alive
    else if s.handles = 1 ∧ s.borrows = [] then some ({ s with handles := 0 }, .quiet)
    else none
  | .unsubscribeRevocation =>
    if s.handles = 0 ∧ s.revocationSub then some ({ s with revocationSub := false }, .quiet)
    else none
  | .unsubscribeRotation =>
    if s.handles = 0 ∧ !s.revocationSub ∧ s.rotationSub then
      some ({ s with rotationSub := false }, .quiet)
    else none
  | .cancelSweeper =>
    if s.handles = 0 ∧ !s.rotationSub ∧ !s.cancelled then some ({ s with cancelled := true }, .quiet)
    else none
  | .call action =>
    match action.caller with
    | some i =>
      if 0 < s.handles then
        (runtimeNext U H S hash rt s.runtime action).map fun next =>
          ({ s with runtime := next.1, borrows := loans s.borrows i next.1.registry },
            .runtime next.2)
      else none
    | none => none
  | .credentialRevoked pluginId target =>
    if s.revocationSub then some ({ s with tasks := s.tasks ++ [.revoked pluginId target] }, .quiet)
    else none
  | .secretRotated secretRef =>
    if s.rotationSub then
      if rt.secretRefs.contains secretRef then
        some ({ s with tasks := s.tasks ++ [.rotated secretRef] }, .quiet)
      else some (s, .quiet)
    else none
  | .runTask n it =>
    match s.tasks[n]? with
    | some task =>
      (runtimeNext U H S hash rt s.runtime (task.action it)).map fun next =>
        ({ s with runtime := next.1, tasks := s.tasks.eraseIdx n }, .runtime next.2)
    | none => none
  | .firstTick =>
    match s.sweeper with
    | .starting => some ({ s with sweeper := .waiting }, .quiet)
    | _ => none
  | .pollSweeper tickReady =>
    match s.sweeper with
    | .waiting =>
      -- `biased`: the token before the ticker
      if s.cancelled then some ({ s with sweeper := .returned }, .quiet)
      else if tickReady then some ({ s with sweeper := .sweeping }, .quiet)
      else some (s, .quiet)
    | _ => none
  | .sweep elapsed it =>
    match s.sweeper with
    | .sweeping =>
      (runtimeNext U H S hash rt s.runtime (.sweepIdle elapsed it)).map fun next =>
        ({ s with runtime := next.1, sweeper := .waiting }, .runtime next.2)
    | _ => none

def profileMachine : Machine (ProfileState D S.Ip) (ProfileAction X D S.Ip) (ProfileShown D S.Ip) :=
  ⟨.registered, profileNext U H S hash rt⟩

abbrev ProfileStep (X : ExprApi) (D Ip : Type) :=
  Step (ProfileState D Ip) (ProfileAction X D Ip) (ProfileShown D Ip)

/-! ## What a step does -/

inductive ProfileMoves (s : ProfileState D S.Ip) :
    ProfileAction X D S.Ip → ProfileState D S.Ip → ProfileShown D S.Ip → Prop
  | cloned : 0 < s.handles →
      ProfileMoves s .clone { s with handles := s.handles + 1 } .quiet
  | dropped : 1 < s.handles →
      ProfileMoves s .drop { s with handles := s.handles - 1 } .quiet
  | droppedLast : s.handles = 1 → s.borrows = [] →
      ProfileMoves s .drop { s with handles := 0 } .quiet
  | revocationEnded : s.handles = 0 → s.revocationSub = true →
      ProfileMoves s .unsubscribeRevocation { s with revocationSub := false } .quiet
  | rotationEnded : s.handles = 0 → s.revocationSub = false → s.rotationSub = true →
      ProfileMoves s .unsubscribeRotation { s with rotationSub := false } .quiet
  | cancelled : s.handles = 0 → s.rotationSub = false → s.cancelled = false →
      ProfileMoves s .cancelSweeper { s with cancelled := true } .quiet
  | called {action : RuntimeAction X D S.Ip} {i : CallId} {r : RuntimeState D S.Ip}
      {shown : RuntimeShown D S.Ip} : action.caller = some i → 0 < s.handles →
      runtimeNext U H S hash rt s.runtime action = some (r, shown) →
      ProfileMoves s (.call action)
        { s with runtime := r, borrows := loans s.borrows i r.registry } (.runtime shown)
  | revoked {pluginId target : String} : s.revocationSub = true →
      ProfileMoves s (.credentialRevoked pluginId target)
        { s with tasks := s.tasks ++ [.revoked pluginId target] } .quiet
  | rotated {secretRef : String} : s.rotationSub = true → secretRef ∈ rt.secretRefs →
      ProfileMoves s (.secretRotated secretRef)
        { s with tasks := s.tasks ++ [.rotated secretRef] } .quiet
  | rotatedElsewhere {secretRef : String} : s.rotationSub = true → secretRef ∉ rt.secretRefs →
      ProfileMoves s (.secretRotated secretRef) s .quiet
  | taskRan {n : Nat} {it : IterOrder D (ClientEntry (Client S.Ip))} {task : EvictionTask}
      {r : RuntimeState D S.Ip} {shown : RuntimeShown D S.Ip} : s.tasks[n]? = some task →
      runtimeNext U H S hash rt s.runtime (task.action it) = some (r, shown) →
      ProfileMoves s (.runTask n it) { s with runtime := r, tasks := s.tasks.eraseIdx n }
        (.runtime shown)
  | started : s.sweeper = .starting →
      ProfileMoves s .firstTick { s with sweeper := .waiting } .quiet
  | returned {tickReady : Bool} : s.sweeper = .waiting → s.cancelled = true →
      ProfileMoves s (.pollSweeper tickReady) { s with sweeper := .returned } .quiet
  | ticked : s.sweeper = .waiting → s.cancelled = false →
      ProfileMoves s (.pollSweeper true) { s with sweeper := .sweeping } .quiet
  | pending : s.sweeper = .waiting → s.cancelled = false →
      ProfileMoves s (.pollSweeper false) s .quiet
  | swept {elapsed : Nat} {it : IterOrder D (ClientEntry (Client S.Ip))}
      {r : RuntimeState D S.Ip} {shown : RuntimeShown D S.Ip} : s.sweeper = .sweeping →
      runtimeNext U H S hash rt s.runtime (.sweepIdle elapsed it) = some (r, shown) →
      ProfileMoves s (.sweep elapsed it) { s with runtime := r, sweeper := .waiting }
        (.runtime shown)

variable {U H S hash rt} {s t : ProfileState D S.Ip} {a : ProfileAction X D S.Ip}
  {o : ProfileShown D S.Ip} {hist : List (ProfileStep X D S.Ip)}

/-- **Inversion.** -/
theorem profileNext_moves (h : profileNext U H S hash rt s a = some (t, o)) :
    ProfileMoves U H S hash rt s a t o := by
  cases a with
  | clone =>
    simp only [profileNext] at h
    split at h
    · next hpos => cases h; exact .cloned hpos
    · cases h
  | drop =>
    simp only [profileNext] at h
    split at h
    · next hmany => cases h; exact .dropped hmany
    · split at h
      · next hlast => cases h; exact .droppedLast hlast.1 hlast.2
      · cases h
  | unsubscribeRevocation =>
    simp only [profileNext] at h
    split at h
    · next hg => cases h; exact .revocationEnded hg.1 hg.2
    · cases h
  | unsubscribeRotation =>
    simp only [profileNext, Bool.not_eq_true'] at h
    split at h
    · next hg => cases h; exact .rotationEnded hg.1 hg.2.1 hg.2.2
    · cases h
  | cancelSweeper =>
    simp only [profileNext, Bool.not_eq_true'] at h
    split at h
    · next hg => cases h; exact .cancelled hg.1 hg.2.1 hg.2.2
    · cases h
  | call action =>
    simp only [profileNext] at h
    split at h
    · next i hi =>
      split at h
      · next hpos =>
        obtain ⟨⟨r, shown⟩, hr, hst⟩ := Option.map_eq_some_iff.1 h
        cases hst
        exact .called hi hpos hr
      · cases h
    · cases h
  | credentialRevoked pluginId target =>
    simp only [profileNext] at h
    split at h
    · next hsub => cases h; exact .revoked hsub
    · cases h
  | secretRotated secretRef =>
    simp only [profileNext] at h
    split at h
    · next hsub =>
      split at h
      · next hmem => cases h; exact .rotated hsub (List.contains_iff_mem.1 hmem)
      · next hmem =>
        cases h
        exact .rotatedElsewhere hsub fun hm => hmem (List.contains_iff_mem.2 hm)
    · cases h
  | runTask n it =>
    simp only [profileNext] at h
    split at h
    · next task htask =>
      obtain ⟨⟨r, shown⟩, hr, hst⟩ := Option.map_eq_some_iff.1 h
      cases hst
      exact .taskRan htask hr
    · cases h
  | firstTick =>
    simp only [profileNext] at h
    split at h
    · next hsw => cases h; exact .started hsw
    · cases h
  | pollSweeper tickReady =>
    simp only [profileNext] at h
    split at h
    · next hsw =>
      split at h
      · next hc => cases h; exact .returned hsw hc
      · next hc =>
        rw [Bool.not_eq_true] at hc
        cases tickReady with
        | true => cases h; exact .ticked hsw hc
        | false => cases h; exact .pending hsw hc
    · cases h
  | sweep elapsed it =>
    simp only [profileNext] at h
    split at h
    · next hsw =>
      obtain ⟨⟨r, shown⟩, hr, hst⟩ := Option.map_eq_some_iff.1 h
      cases hst
      exact .swept hsw hr
    · cases h

/-! ## The runtime's run -/

/-- The step of the runtime in a step of the profile. -/
def ProfileAction.runtimeAction (s : ProfileState D Ip) :
    ProfileAction X D Ip → Option (RuntimeAction X D Ip)
  | .call action => some action
  | .runTask n it => s.tasks[n]?.map fun task => task.action it
  | .sweep elapsed it => some (.sweepIdle elapsed it)
  | _ => none

def runtimeStep (st : ProfileStep X D Ip) : Option (RuntimeStep X D Ip) :=
  match st.label.runtimeAction st.pre, st.out with
  | some action, .runtime shown => some ⟨st.pre.runtime, action, shown, st.post.runtime⟩
  | _, _ => none

/-- A step of the profile is a step of the runtime, or leaves it alone. -/
theorem moves_runtime (h : ProfileMoves U H S hash rt s a t o) :
    (∃ action shown, a.runtimeAction s = some action ∧ o = .runtime shown ∧
        runtimeNext U H S hash rt s.runtime action = some (t.runtime, shown)) ∨
      (o = .quiet ∧ t.runtime = s.runtime) := by
  cases h with
  | called hi hpos hr => exact Or.inl ⟨_, _, rfl, rfl, hr⟩
  | taskRan htask hr =>
    refine Or.inl ⟨_, _, ?_, rfl, hr⟩
    simp only [ProfileAction.runtimeAction, htask, Option.map_some]
  | swept hsw hr => exact Or.inl ⟨_, _, rfl, rfl, hr⟩
  | cloned | dropped | droppedLast | revocationEnded | rotationEnded | cancelled | revoked | rotated
  | rotatedElsewhere | started | returned | ticked | pending => exact Or.inr ⟨rfl, rfl⟩

/-- **Refinement.**  A run of the profile is a run of its runtime: what holds of
every run of the runtime holds with the background tasks in it. -/
theorem run_runtime (h : (profileMachine U H S hash rt).Run hist s) :
    (runtimeMachine U H S hash rt).Run (hist.filterMap runtimeStep) s.runtime := by
  refine h.project ProfileState.runtime _ rfl ?_
  intro s a o t hn
  rcases moves_runtime (profileNext_moves hn) with ⟨action, shown, ha, rfl, hr⟩ | ⟨rfl, hsame⟩
  · right
    refine ⟨action, shown, ?_, hr⟩
    simp only [runtimeStep, ha]
  · left
    refine ⟨?_, hsame⟩
    unfold runtimeStep
    split
    · next hq => cases hq
    · rfl

abbrev bearerProfile : Machine (ProfileState Bytes Ipv4) (ProfileAction plainExprApi Bytes Ipv4)
    (ProfileShown Bytes Ipv4) :=
  profileMachine plainUrlApi plainHeaderApi plainSecurityApi plainHash bearerRuntime

end NetCore
