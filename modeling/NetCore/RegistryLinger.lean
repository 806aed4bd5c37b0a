import NetCore.RegistryTies

/-!
# How long an idle client stays

A sweep removes what has not been returned for longer than the idle time, and the
sweeper runs one at every tick.  How late a tick may be is up to the scheduler:
`KeepsUp gap` says that no reading is more than `gap` after the last sweep.  Then
no step of a run finds a client that was last returned longer ago than the idle
time and `gap` together (`idle_bounded`).
-/

namespace NetCore

open HashTable StepSystem

variable {D C : Type}

/-- The reading of the last sweep; the registry's epoch before the first. -/
def lastSweep : List (RegistryStep D C) → Nat
  | [] => 0
  | st :: older =>
    match st.label with
    | .sweepIdle elapsed _ => nowMillis elapsed
    | _ => lastSweep older

/-- No reading is more than `gap` after the last sweep before it. -/
def KeepsUp (gap : Nat) (hist : List (RegistryStep D C)) : Prop :=
  Along (fun older st => ∀ r ∈ st.label.reading, r ≤ lastSweep older + gap) hist

/-- The idle time of a sweep, in milliseconds. -/
def thresholdMs (config : ClientRegistryConfig) : Nat := asU64 config.idleEviction.asMillis

variable {hist : List (RegistryStep D C)}

theorem ClockMonotone.tail {st : RegistryStep D C} (h : ClockMonotone (st :: hist)) :
    ClockMonotone hist :=
  h.sublist ((List.sublist_cons_self st hist).filterMap _)

/-- The last sweep was no later than the next reading. -/
theorem lastSweep_le {st : RegistryStep D C} {r : Nat} (h : ClockMonotone (st :: hist))
    (hr : st.label.reading = some r) : lastSweep hist ≤ r := by
  induction hist with
  | nil => exact Nat.zero_le r
  | cons x older ih =>
    obtain ⟨pre, label, out, post⟩ := x
    have hskip : ClockMonotone (st :: older) :=
      h.sublist (((List.sublist_cons_self _ older).cons_cons st).filterMap _)
    cases label with
    | sweepIdle elapsed it =>
      unfold ClockMonotone at h
      rw [List.filterMap_cons_some (f := fun x : RegistryStep D C => x.label.reading) hr,
        List.pairwise_cons] at h
      exact h.1 _ (List.mem_filterMap.2 ⟨_, List.mem_cons_self, rfl⟩)
    | lookup | invoke | finish | insert | abandon | evictFor | evictForSecret => exact ih hskip

variable [DecidableEq D] {config : ClientRegistryConfig} {s t : Registry D C} {a : Action D C}
  {o : Shown D C}

/-- What is cached was used since the last sweep, or that sweep found it young. -/
def Young (config : ClientRegistryConfig) (hist : List (RegistryStep D C)) (s : Registry D C) :
    Prop :=
  ∀ d e, s.clients.lookup d = some e → lastSweep hist ≤ e.lastUsed + thresholdMs config

theorem moves_young (h : (registryMachine D C config).Run hist s) (hm : Moves config s a t o)
    (hclock : ClockMonotone (⟨s, a, o, t⟩ :: hist)) (hy : Young config hist s) :
    Young config (⟨s, a, o, t⟩ :: hist) t := by
  intro d e he
  rcases moves_stamp hm (run_traced h) he with ⟨hret, hread⟩ | ⟨-, hold⟩
  · -- stamped by this step, which is no sweep
    have hle : lastSweep hist ≤ e.lastUsed := lastSweep_le hclock hread
    cases hm with
    | sweepIdle => cases hret
    | hit | miss | invoked | built | failed | lostRace | inserted | abandoned | evictFor
    | evictForSecret =>
      show lastSweep hist ≤ _
      omega
  · have hyoung := hy d e hold
    cases hm with
    | sweepIdle =>
      obtain ⟨-, hkept⟩ := (lookup_sweepIdle _ _ _ _ _ _).1 he
      show nowMillis _ ≤ e.lastUsed + asU64 config.idleEviction.asMillis
      omega
    | hit | miss | invoked | built | failed | lostRace | inserted | abandoned | evictFor
    | evictForSecret => exact hyoung

theorem run_young (h : (registryMachine D C config).Run hist s) (hclock : ClockMonotone hist) :
    Young config hist s := by
  refine h.inv (P := fun hist s => ClockMonotone hist → Young config hist s) ?_ ?_ hclock
  · intro _ d e he
    cases he
  · intro hist s a o t hr ih hn hclock
    exact moves_young hr (registryNext_moves hn) hclock (ih hclock.tail)

/-- No client the step finds was last returned longer ago than `bound`. -/
def FindsWithin (bound : Nat) (older : List (RegistryStep D C)) (st : RegistryStep D C) : Prop :=
  ∀ now, st.label.reading = some now → ∀ d e, st.pre.clients.lookup d = some e →
    ∃ r, LastReturned older e.client r ∧ now ≤ r + bound

/-- **Idle clients do not linger.**  In every run whose clock never runs back and
whose sweeps keep up within `gap`, no step that reads the clock finds a client that
was last returned longer ago than the idle time and `gap` together. -/
theorem idle_bounded (h : (registryMachine D C config).Run hist s) {gap : Nat}
    (hclock : ClockMonotone hist) (hup : KeepsUp gap hist) :
    Along (FindsWithin (thresholdMs config + gap)) hist := by
  rintro newer st older rfl now hnow d e he
  obtain ⟨hr, -⟩ := h.split
  have hclock' : ClockMonotone older :=
    hclock.sublist (((List.sublist_cons_self st older).trans
      (List.sublist_append_right newer _)).filterMap _)
  have hyoung := run_young hr hclock' d e he
  have hgap := hup newer st older rfl now hnow
  exact ⟨e.lastUsed, run_stamp hr he, by omega⟩

/-- A client cached at 4 is swept at 9, four milliseconds late, under an idle time of
one. -/
def sweptLate : List (Action Nat Nat) :=
  [.lookup 0 7 [] 3, .invoke 0, .finish 0 (.ok 70), .insert 0 4 (.stored _ _),
    .sweepIdle 5 (.stored _ _), .sweepIdle 9 (.stored _ _)]

theorem idle_bounded_sweptLate :
    ∃ c, (registryMachine Nat Nat ⟨256, ⟨0, 1000000, by decide, by decide⟩⟩).exec sweptLate
        ([], Registry.new) = some c ∧
      Along (FindsWithin (thresholdMs ⟨256, ⟨0, 1000000, by decide, by decide⟩⟩ + 5)) c.1 := by
  obtain ⟨c, hc, hclock, hup⟩ : ∃ c, (registryMachine Nat Nat
      ⟨256, ⟨0, 1000000, by decide, by decide⟩⟩).exec sweptLate ([], Registry.new) = some c ∧
      ClockMonotone c.1 ∧ KeepsUp 5 c.1 :=
    ⟨_, rfl, by unfold ClockMonotone; decide, by unfold KeepsUp; decide⟩
  exact ⟨c, hc, idle_bounded (Machine.exec_init hc) hclock hup⟩

end NetCore
