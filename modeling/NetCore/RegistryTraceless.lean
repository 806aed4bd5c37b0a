import NetCore.RegistryLive

/-!
# A call that gets no client leaves no trace

A build may fail, and a future may be dropped at any await.  Until it returns a
client a call only reads the map, so the run without it is a run too, with the
same map at the end and the same outcome of every other step
(`clientless_calls_traceless`).
-/

namespace NetCore

open HashTable StepSystem

variable {D C : Type}

/-- The calls that are not in `F`. -/
def sparing (F : CallId → Prop) [DecidablePred F] (calls : CallId → Option (Call D C)) :
    CallId → Option (Call D C) :=
  fun i => if F i then none else calls i

/-- The registry as if the calls in `F` had never come. -/
def Registry.without (s : Registry D C) (F : CallId → Prop) [DecidablePred F] : Registry D C :=
  ⟨s.clients, sparing F s.calls⟩

/-- The step belongs to none of the calls in `F`. -/
def Spares (F : CallId → Prop) (a : Action D C) : Prop := ∀ i, a.caller = some i → ¬ F i

instance (F : CallId → Prop) [DecidablePred F] (a : Action D C) : Decidable (Spares F a) :=
  decidable_of_iff (a.caller.all fun i => !decide (F i)) (by
    unfold Spares
    cases a.caller with
    | none => simp
    | some i => simp)

variable {F : CallId → Prop} [DecidablePred F]

theorem sparing_eq {calls : CallId → Option (Call D C)} {i : CallId} (hi : ¬ F i) :
    sparing F calls i = calls i := if_neg hi

theorem sparing_update {calls : CallId → Option (Call D C)} {i : CallId} (hi : ¬ F i)
    (c : Option (Call D C)) :
    sparing F (Function.update calls i c) = Function.update (sparing F calls) i c := by
  funext j
  unfold sparing
  by_cases hj : j = i
  · subst hj
    rw [if_neg hi, Function.update_self, Function.update_self]
  · rw [Function.update_of_ne hj, Function.update_of_ne hj]

variable [DecidableEq D] {config : ClientRegistryConfig} {s t : Registry D C} {a : Action D C}
  {o : Shown D C}

/-- The other steps run as they did. -/
theorem next_without (h : registryNext config s a = some (t, o)) (ha : Spares F a) :
    registryNext config (s.without F) a = some (t.without F, o) := by
  cases a with
  | lookup i digest credKeys elapsed =>
    have hi := ha i rfl
    simp only [registryNext, Registry.without, sparing_eq hi] at h ⊢
    cases hc : s.calls i with
    | some c =>
      rw [hc] at h
      cases h
    | none =>
      rw [hc] at h
      cases hl : getOrBuildLookup s.clients digest elapsed with
      | none =>
        simp only [hl, Option.some.injEq, Prod.mk.injEq] at h ⊢
        obtain ⟨rfl, rfl⟩ := h
        exact ⟨by simp only [Registry.setCall, sparing_update hi], rfl⟩
      | some found =>
        simp only [hl, Option.some.injEq, Prod.mk.injEq] at h ⊢
        obtain ⟨rfl, rfl⟩ := h
        exact ⟨by simp only [Registry.setCall, sparing_update hi], rfl⟩
  | invoke i =>
    have hi := ha i rfl
    simp only [registryNext, Registry.without, sparing_eq hi] at h ⊢
    split at h
    · next c hc =>
      split at h
      · next hp =>
        cases h
        simp only [Registry.setCall, sparing_update hi]
      · cases h
    · cases h
  | finish i outcome =>
    have hi := ha i rfl
    simp only [registryNext, Registry.without, sparing_eq hi] at h ⊢
    split at h
    · next c hc =>
      split at h
      · next client hp =>
        cases h
        simp only [Registry.setCall, sparing_update hi]
      · next e hp =>
        cases h
        simp only [Registry.setCall, sparing_update hi]
      · cases h
    · cases h
  | insert i elapsed it =>
    have hi := ha i rfl
    simp only [registryNext, Registry.without, sparing_eq hi] at h ⊢
    split at h
    · next c hc =>
      split at h
      · next client hp =>
        split at h
        · next found clients hins =>
          cases h
          simp only [Registry.setCall, sparing_update hi]
        · next clients lru hins =>
          cases h
          simp only [Registry.setCall, sparing_update hi]
      · cases h
    · cases h
  | abandon i =>
    have hi := ha i rfl
    simp only [registryNext, Registry.without, sparing_eq hi] at h ⊢
    split at h
    · next c hc =>
      split at h
      · next hp =>
        cases h
        simp only [Registry.setCall, sparing_update hi]
      · next client hp =>
        cases h
        simp only [Registry.setCall, sparing_update hi]
      · cases h
    · cases h
  | evictFor p target it =>
    cases h
    rfl
  | evictForSecret r =>
    cases h
    rfl
  | sweepIdle elapsed it =>
    cases h
    rfl

/-! ## A whole run -/

/-- Call `i` has not returned a client. -/
def Clientless (s : Registry D C) (i : CallId) : Prop :=
  ∀ digest credKeys client, s.calls i ≠ some ⟨digest, credKeys, .returned (.ok client)⟩

variable {hist : List (RegistryStep D C)}

/-- A step of a call that has no client at the end leaves the map alone. -/
theorem run_clientless (h : (registryMachine D C config).Run hist s) {st : RegistryStep D C}
    (hm : st ∈ hist) {i : CallId} (hi : st.label.caller = some i) (hless : Clientless s i) :
    st.post.clients = st.pre.clients := by
  rcases moves_touches (registryNext_moves (h.step_of_mem hm)) hi with
    heq | ⟨digest, keys, client, hok⟩
  · exact heq
  · exact absurd (run_ended h hm hok rfl) (hless _ _ _)

/-- The step in the run without the calls in `F`. -/
def spared (F : CallId → Prop) [DecidablePred F] (st : RegistryStep D C) :
    Option (RegistryStep D C) :=
  if Spares F st.label then some ⟨st.pre.without F, st.label, st.out, st.post.without F⟩ else none

/-- A step of a call in `F` is no step of that run. -/
theorem run_unspared (h : (registryMachine D C config).Run hist s)
    (hF : ∀ i, F i → Clientless s i) {st : RegistryStep D C} (hm : st ∈ hist)
    (hsp : ¬ Spares F st.label) : st.post.without F = st.pre.without F := by
  unfold Spares at hsp
  push Not at hsp
  obtain ⟨i, hi, hFi⟩ := hsp
  have hclients := run_clientless h hm hi (hF i hFi)
  have hcalls : sparing F st.post.calls = sparing F st.pre.calls := by
    funext j
    by_cases hj : F j
    · unfold sparing
      rw [if_pos hj, if_pos hj]
    · rw [sparing_eq hj, sparing_eq hj]
      apply moves_others (registryNext_moves (h.step_of_mem hm))
      rw [hi]
      rintro ⟨⟩
      exact hj hFi
  unfold Registry.without
  rw [hclients, hcalls]

omit [DecidableEq D] in
theorem spared_labels (hist : List (RegistryStep D C)) :
    (hist.filterMap (spared F)).map (fun st => (st.label, st.out)) =
      (hist.filter fun st => Spares F st.label).map (fun st => (st.label, st.out)) := by
  induction hist with
  | nil => rfl
  | cons st hist ih =>
    by_cases hsp : Spares F st.label
    · have hst : spared F st = some ⟨st.pre.without F, st.label, st.out, st.post.without F⟩ :=
        if_pos hsp
      rw [List.filterMap_cons_some hst, List.filter_cons_of_pos (by simpa using hsp),
        List.map_cons, List.map_cons, ih]
    · have hst : spared F st = none := if_neg hsp
      rw [List.filterMap_cons_none hst, List.filter_cons_of_neg (by simpa using hsp), ih]

/-- **No trace.**  Leave out of a run all steps of calls that end it without a client,
or are still on their way: what is left is a run, in which every other step shows what it
showed, every other call is where it was, and the map is the same. -/
theorem clientless_calls_traceless (h : (registryMachine D C config).Run hist s)
    (hF : ∀ i, F i → Clientless s i) :
    ∃ hist' s', (registryMachine D C config).Run hist' s' ∧
      hist'.map (fun st => (st.label, st.out)) =
        (hist.filter fun st => Spares F st.label).map (fun st => (st.label, st.out)) ∧
      s'.clients = s.clients ∧ (∀ i, F i → s'.calls i = none) ∧
      ∀ i, ¬ F i → s'.calls i = s.calls i := by
  refine ⟨hist.filterMap (spared F), s.without F, ?_, spared_labels hist, rfl, fun i hi => if_pos hi,
    fun i hi => sparing_eq hi⟩
  refine h.project_of_mem (·.without F) (spared F) ?_ ?_
  · show (Registry.new : Registry D C).without F = Registry.new
    unfold Registry.without sparing Registry.new
    congr 1
    funext i
    exact ite_self none
  · intro st hm hn
    by_cases hsp : Spares F st.label
    · exact Or.inr ⟨st.label, st.out, if_pos hsp, next_without hn hsp⟩
    · exact Or.inl ⟨if_neg hsp, run_unspared h hF hm hsp⟩

/-- Call 0 is dropped while call 1, which had missed after it, inserts and call 2 fails. -/
def droppedAndFailed : List (Action Nat Nat) :=
  [.lookup 0 7 [] 3, .lookup 1 7 [] 3, .invoke 0, .lookup 2 8 [] 4, .invoke 1, .abandon 0,
    .finish 1 (.ok 71), .invoke 2, .insert 1 5 (.stored _ _), .finish 2 (.error "refused")]

theorem clientless_calls_traceless_droppedAndFailed :
    ∃ c hist' s', (registryMachine Nat Nat .default).exec droppedAndFailed ([], Registry.new) =
        some c ∧ (registryMachine Nat Nat .default).Run hist' s' ∧ hist'.length = 4 ∧
      s'.clients = c.2.clients := by
  obtain ⟨c, hc, h0, h2, hlen⟩ : ∃ c, (registryMachine Nat Nat .default).exec droppedAndFailed
      ([], Registry.new) = some c ∧ c.2.calls 0 = some ⟨7, [], .abandoned⟩ ∧
      c.2.calls 2 = some ⟨8, [], .returned (.error "refused")⟩ ∧
      (c.1.filter fun st => Spares (fun i => i = 0 ∨ i = 2) st.label).length = 4 :=
    ⟨_, rfl, rfl, rfl, rfl⟩
  obtain ⟨hist', s', hr, hlabels, hclients, -⟩ :=
    clientless_calls_traceless (F := fun i => i = 0 ∨ i = 2) (Machine.exec_init hc) (by
      rintro i (rfl | rfl) digest credKeys client hok
      · rw [h0] at hok
        cases hok
      · rw [h2] at hok
        cases hok)
  have hcount := congrArg List.length hlabels
  rw [List.length_map, List.length_map, hlen] at hcount
  exact ⟨c, hist', s', hc, hr, hcount, hclients⟩

end NetCore
