import Mathlib.Data.List.Basic

/-!
# Runs of a step system

A `Machine` is a state, and a partial step function whose label carries every
choice of the environment (which party moves, what the clock reads, what an
external call answers).  `M.Run hist s`: from the initial state the steps
`hist` (newest first) lead to `s`; each `Step` keeps the states on its two
sides, so a property of a run can speak of every state it went through.

* `Run.inv`: a property of history and state that every step keeps holds of
  every run.
* `Run.split`: a step in the middle of a run, with the run before it.
* `Run.persist`: what one step brings about and no later step undoes.
* `Run.project`: a machine whose steps are steps of another one, or leave its
  state alone, runs only where the other one runs; `Run.project_of_mem` asks it of
  the steps of one run.
* `Along`: every step of a run meets a condition on it and the steps before it.
* `exec`: the run of a given list of labels, if there is one.
-/

namespace StepSystem

/-- `next s l`: the state after the step `l` and what the step shows, none
where `l` cannot run in `s`. -/
structure Machine (σ ℓ ε : Type) where
  init : σ
  next : σ → ℓ → Option (σ × ε)

structure Step (σ ℓ ε : Type) where
  pre : σ
  label : ℓ
  out : ε
  post : σ

variable {σ ℓ ε : Type} {M : Machine σ ℓ ε}

inductive Machine.Run (M : Machine σ ℓ ε) : List (Step σ ℓ ε) → σ → Prop
  | init : M.Run [] M.init
  | step {hist : List (Step σ ℓ ε)} {s t : σ} {l : ℓ} {e : ε} :
      M.Run hist s → M.next s l = some (t, e) → M.Run (⟨s, l, e, t⟩ :: hist) t

/-- **Invariants.**  What holds initially and is kept by every step of a run
holds of every run. -/
theorem Machine.Run.inv {P : List (Step σ ℓ ε) → σ → Prop} (h0 : P [] M.init)
    (hs : ∀ hist s l e t, M.Run hist s → P hist s → M.next s l = some (t, e) →
      P (⟨s, l, e, t⟩ :: hist) t)
    {hist : List (Step σ ℓ ε)} {s : σ} (h : M.Run hist s) : P hist s := by
  induction h with
  | init => exact h0
  | step hr hn ih => exact hs _ _ _ _ _ hr ih hn

theorem Machine.run_cons {hist : List (Step σ ℓ ε)} {st : Step σ ℓ ε} {s : σ} :
    M.Run (st :: hist) s ↔
      M.Run hist st.pre ∧ M.next st.pre st.label = some (st.post, st.out) ∧ s = st.post := by
  constructor
  · intro h
    cases h with
    | step hr hn => exact ⟨hr, hn, rfl⟩
  · rintro ⟨hr, hn, rfl⟩
    exact .step hr hn

/-- The history fixes the state. -/
theorem Machine.Run.state_unique {hist : List (Step σ ℓ ε)} {s t : σ} (h : M.Run hist s)
    (h' : M.Run hist t) : s = t := by
  cases h with
  | init =>
    cases h' with
    | init => rfl
  | step hr hn => exact (Machine.run_cons.1 h').2.2.symm

theorem Machine.Run.older {newer older : List (Step σ ℓ ε)} {s : σ}
    (h : M.Run (newer ++ older) s) : ∃ s', M.Run older s' := by
  induction newer generalizing s with
  | nil => exact ⟨s, h⟩
  | cons st newer ih => exact ih (Machine.run_cons.1 h).1

/-- A step inside a run: the run up to it, and the step itself. -/
theorem Machine.Run.split {newer older : List (Step σ ℓ ε)} {st : Step σ ℓ ε} {s : σ}
    (h : M.Run (newer ++ st :: older) s) :
    M.Run older st.pre ∧ M.next st.pre st.label = some (st.post, st.out) := by
  obtain ⟨s', h'⟩ := h.older
  exact ⟨(Machine.run_cons.1 h').1, (Machine.run_cons.1 h').2.1⟩

theorem Machine.Run.of_mem {hist : List (Step σ ℓ ε)} {st : Step σ ℓ ε} {s : σ}
    (h : M.Run hist s) (hm : st ∈ hist) :
    ∃ older, M.Run older st.pre ∧ M.next st.pre st.label = some (st.post, st.out) := by
  obtain ⟨newer, older, rfl⟩ := List.append_of_mem hm
  exact ⟨older, h.split⟩

/-- A step inside a run is a step of the machine. -/
theorem Machine.Run.step_of_mem {hist : List (Step σ ℓ ε)} {st : Step σ ℓ ε} {s : σ}
    (h : M.Run hist s) (hm : st ∈ hist) : M.next st.pre st.label = some (st.post, st.out) := by
  obtain ⟨older, -, hn⟩ := h.of_mem hm
  exact hn

/-- What holds after a step, and is kept by each step after it, holds at the end. -/
theorem Machine.Run.persist {P : σ → Prop} {newer older : List (Step σ ℓ ε)} {st : Step σ ℓ ε}
    {s : σ} (h : M.Run (newer ++ st :: older) s) (h0 : P st.post)
    (hs : ∀ x ∈ newer, M.next x.pre x.label = some (x.post, x.out) → P x.pre → P x.post) : P s := by
  induction newer generalizing s with
  | nil =>
    obtain ⟨-, -, rfl⟩ := Machine.run_cons.1 h
    exact h0
  | cons x newer ih =>
    obtain ⟨hr, hn, rfl⟩ := Machine.run_cons.1 h
    apply hs x List.mem_cons_self hn
    exact ih hr fun y hy => hs y (List.mem_cons_of_mem _ hy)

/-- **Refinement.**  If every step of a run of `M` is, through `f` and `g`, a step of
`N` or leaves the state of `N` alone, then the run is a run of `N`. -/
theorem Machine.Run.project_of_mem {σ' ℓ' ε' : Type} {N : Machine σ' ℓ' ε'} (f : σ → σ')
    (g : Step σ ℓ ε → Option (Step σ' ℓ' ε')) (h0 : f M.init = N.init)
    {hist : List (Step σ ℓ ε)} {s : σ} (h : M.Run hist s)
    (hs : ∀ st ∈ hist, M.next st.pre st.label = some (st.post, st.out) →
      (g st = none ∧ f st.post = f st.pre) ∨
      ∃ l' e', g st = some ⟨f st.pre, l', e', f st.post⟩ ∧
        N.next (f st.pre) l' = some (f st.post, e')) : N.Run (hist.filterMap g) (f s) := by
  induction h with
  | init => rw [List.filterMap_nil, h0]; exact .init
  | step hr hn ih =>
    have hrest := ih fun st hm => hs st (List.mem_cons_of_mem _ hm)
    rw [List.filterMap_cons]
    rcases hs _ List.mem_cons_self hn with ⟨hg, hf⟩ | ⟨l', e', hg, hn'⟩
    · rw [hg, hf]; exact hrest
    · rw [hg]; exact .step hrest hn'

/-- If all steps of `M` do so, all runs of `M` are runs of `N`. -/
theorem Machine.Run.project {σ' ℓ' ε' : Type} {N : Machine σ' ℓ' ε'} (f : σ → σ')
    (g : Step σ ℓ ε → Option (Step σ' ℓ' ε')) (h0 : f M.init = N.init)
    (hs : ∀ s l e t, M.next s l = some (t, e) →
      (g ⟨s, l, e, t⟩ = none ∧ f t = f s) ∨
      ∃ l' e', g ⟨s, l, e, t⟩ = some ⟨f s, l', e', f t⟩ ∧ N.next (f s) l' = some (f t, e'))
    {hist : List (Step σ ℓ ε)} {s : σ} (h : M.Run hist s) : N.Run (hist.filterMap g) (f s) :=
  h.project_of_mem f g h0 fun st _ hn => hs st.pre st.label st.out st.post hn

/-! ## Every step with the run before it -/

/-- `Q` holds of every step of the history, given the steps before it. -/
def Along (Q : List (Step σ ℓ ε) → Step σ ℓ ε → Prop) (hist : List (Step σ ℓ ε)) : Prop :=
  ∀ newer st older, hist = newer ++ st :: older → Q older st

variable {Q : List (Step σ ℓ ε) → Step σ ℓ ε → Prop}

theorem along_nil : Along Q [] := by
  intro newer st older h
  exact absurd h (by simp)

theorem along_cons {st : Step σ ℓ ε} {hist : List (Step σ ℓ ε)} :
    Along Q (st :: hist) ↔ Q hist st ∧ Along Q hist := by
  constructor
  · intro h
    refine ⟨h [] st hist rfl, ?_⟩
    rintro newer x older rfl
    exact h (st :: newer) x older rfl
  · rintro ⟨hst, hhist⟩ newer x older heq
    cases newer with
    | nil =>
      obtain ⟨rfl, rfl⟩ := List.cons.inj heq
      exact hst
    | cons y newer =>
      obtain ⟨rfl, rfl⟩ := List.cons.inj heq
      exact hhist newer x older rfl

instance Along.decidable [∀ hist st, Decidable (Q hist st)] :
    (hist : List (Step σ ℓ ε)) → Decidable (Along Q hist)
  | [] => isTrue along_nil
  | _ :: hist =>
    haveI := Along.decidable hist
    decidable_of_iff _ along_cons.symm

/-- A run all of whose steps meet `Q` keeps what steps that meet `Q` keep. -/
theorem Machine.Run.inv_along {P : List (Step σ ℓ ε) → σ → Prop} (h0 : P [] M.init)
    (hs : ∀ hist s l e t, M.Run hist s → Q hist ⟨s, l, e, t⟩ → P hist s →
      M.next s l = some (t, e) → P (⟨s, l, e, t⟩ :: hist) t)
    {hist : List (Step σ ℓ ε)} {s : σ} (h : M.Run hist s) (hq : Along Q hist) : P hist s := by
  induction h with
  | init => exact h0
  | step hr hn ih =>
    obtain ⟨hst, hhist⟩ := along_cons.1 hq
    exact hs _ _ _ _ _ hr hst (ih hhist) hn

/-- What each step shows, given that the steps up to it meet `Q`, holds along
every run whose steps all do. -/
theorem Machine.Run.along {R : List (Step σ ℓ ε) → Step σ ℓ ε → Prop}
    (hs : ∀ hist st, M.Run (st :: hist) st.post → Along Q (st :: hist) → R hist st)
    {hist : List (Step σ ℓ ε)} {s : σ} (h : M.Run hist s) (hq : Along Q hist) : Along R hist := by
  induction h with
  | init => exact along_nil
  | step hr hn ih =>
    exact along_cons.2 ⟨hs _ _ (.step hr hn) hq, ih (along_cons.1 hq).2⟩

/-! ## Running a list of labels -/

def Machine.exec (M : Machine σ ℓ ε) :
    List ℓ → List (Step σ ℓ ε) × σ → Option (List (Step σ ℓ ε) × σ)
  | [], c => some c
  | l :: ls, (hist, s) =>
    match M.next s l with
    | some (t, e) => M.exec ls (⟨s, l, e, t⟩ :: hist, t)
    | none => none

theorem Machine.exec_run {ls : List ℓ} {c c' : List (Step σ ℓ ε) × σ} (hc : M.Run c.1 c.2)
    (h : M.exec ls c = some c') : M.Run c'.1 c'.2 := by
  induction ls generalizing c with
  | nil =>
    simp only [exec, Option.some.injEq] at h
    subst h
    exact hc
  | cons l ls ih =>
    obtain ⟨hist, s⟩ := c
    simp only [exec] at h
    split at h
    · next t e hn => exact ih (.step hc hn) h
    · cases h

/-- What the labels lead to from the initial state is a run. -/
theorem Machine.exec_init {ls : List ℓ} {c : List (Step σ ℓ ε) × σ}
    (h : M.exec ls ([], M.init) = some c) : M.Run c.1 c.2 :=
  Machine.exec_run .init h

end StepSystem
