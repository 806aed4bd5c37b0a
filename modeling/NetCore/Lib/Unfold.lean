import Mathlib.Data.List.Basic

/-!
# Streams by `unfold`

`futures::stream::unfold(init, step)` yields items until `step` answers none.
`drain` polls it to its end, with a bound on the polls; `Drains step s items`:
from `s` the stream yields exactly `items` and then ends.  An item after which
every step ends the stream is the last one (`Drains.nothing_after`).  `polls` stops
after a number of polls, with the state the stream is left in.
-/

namespace Unfold

variable {σ α : Type} {step : σ → Option (α × σ)} {s s' : σ} {a : α} {items : List α}

/-- All items, none if the stream is not at its end after `fuel` polls. -/
def drain (step : σ → Option (α × σ)) : Nat → σ → Option (List α)
  | 0, _ => none
  | fuel + 1, s =>
    match step s with
    | none => some []
    | some (a, s') => (drain step fuel s').map (a :: ·)

def Drains (step : σ → Option (α × σ)) (s : σ) (items : List α) : Prop :=
  ∃ fuel, drain step fuel s = some items

theorem drain_succ {fuel : Nat} (h : drain step fuel s = some items) :
    drain step (fuel + 1) s = some items := by
  induction fuel generalizing s items with
  | zero => cases h
  | succ fuel ih =>
    rw [drain] at h ⊢
    cases hs : step s with
    | none =>
      rw [hs] at h
      exact h
    | some x =>
      rw [hs] at h
      simp only [Option.map_eq_some_iff] at h ⊢
      obtain ⟨rest, hrest, rfl⟩ := h
      exact ⟨rest, ih hrest, rfl⟩

/-- More polls than needed change nothing. -/
theorem drain_mono {fuel fuel' : Nat} (h : drain step fuel s = some items) (hle : fuel ≤ fuel') :
    drain step fuel' s = some items := by
  induction hle with
  | refl => exact h
  | step _ ih => exact drain_succ ih

theorem Drains.stop (h : step s = none) : Drains step s [] := ⟨1, by rw [drain, h]⟩

theorem Drains.item (h : step s = some (a, s')) (hd : Drains step s' items) :
    Drains step s (a :: items) := by
  obtain ⟨fuel, hfuel⟩ := hd
  exact ⟨fuel + 1, by simp only [drain, h, hfuel, Option.map_some]⟩

/-- The first item is that of the first step, the others are those of the rest. -/
theorem Drains.head (h : Drains step s (a :: items)) :
    ∃ s', step s = some (a, s') ∧ Drains step s' items := by
  obtain ⟨fuel, hfuel⟩ := h
  cases fuel with
  | zero => cases hfuel
  | succ fuel =>
    rw [drain] at hfuel
    cases hs : step s with
    | none =>
      rw [hs] at hfuel
      cases hfuel
    | some x =>
      rw [hs] at hfuel
      simp only [Option.map_eq_some_iff, List.cons.injEq] at hfuel
      obtain ⟨rest, hrest, rfl, rfl⟩ := hfuel
      exact ⟨x.2, rfl, fuel, hrest⟩

/-- Nothing follows an item that always ends the stream. -/
theorem Drains.nothing_after {before after : List α} (h : Drains step s (before ++ a :: after))
    (hend : ∀ s s', step s = some (a, s') → step s' = none) : after = [] := by
  induction before generalizing s with
  | nil =>
    obtain ⟨s', hs, hrest⟩ := h.head
    cases after with
    | nil => rfl
    | cons b after =>
      obtain ⟨s'', hs', -⟩ := hrest.head
      rw [hend s s' hs] at hs'
      cases hs'
  | cons b before ih =>
    obtain ⟨s', -, hrest⟩ := h.head
    exact ih hrest

theorem Drains.unique {items' : List α} (h : Drains step s items) (h' : Drains step s items') :
    items = items' := by
  obtain ⟨n, hn⟩ := h
  obtain ⟨m, hm⟩ := h'
  have hle := drain_mono hn (Nat.le_max_left n m)
  rw [drain_mono hm (Nat.le_max_right n m), Option.some.injEq] at hle
  exact hle.symm

/-! ## A few polls -/

/-- The items of the first `n` polls, and the state after them; an ended stream is not
polled again. -/
def polls (step : σ → Option (α × σ)) : Nat → σ → List α × σ
  | 0, s => ([], s)
  | n + 1, s =>
    match step s with
    | none => ([], s)
    | some (a, s') => (a :: (polls step n s').1, (polls step n s').2)

theorem polls_item {n : Nat} (h : step s = some (a, s')) :
    polls step (n + 1) s = (a :: (polls step n s').1, (polls step n s').2) := by
  rw [polls, h]

end Unfold
