import Mathlib.Order.Lattice
import Mathlib.Data.List.Basic

/-!
# Ordered maps

A `SortedMap` holds its entries by strictly ascending key, so it has each key
once and is walked in key order.  `traverse f` rebuilds a map under the same
keys, stopping at the first entry `f` refuses; a map built in that loop has the
keys of the one it was built from (`traverse_keys`).
-/

structure SortedMap (κ ν : Type) [LinearOrder κ] where
  entries : List (κ × ν)
  sorted : (entries.map Prod.fst).Pairwise (· < ·)

namespace SortedMap

variable {κ α β ε : Type}

def traverseEntries (f : κ → α → Except ε β) : List (κ × α) → Except ε (List (κ × β))
  | [] => .ok []
  | (k, a) :: l =>
    match f k a with
    | .error e => .error e
    | .ok b =>
      match traverseEntries f l with
      | .error e => .error e
      | .ok bs => .ok ((k, b) :: bs)

theorem traverseEntries_keys {f : κ → α → Except ε β} {l : List (κ × α)} {bs : List (κ × β)}
    (h : traverseEntries f l = .ok bs) : bs.map Prod.fst = l.map Prod.fst := by
  induction l generalizing bs with
  | nil => cases h; rfl
  | cons x l ih =>
    obtain ⟨k, a⟩ := x
    simp only [traverseEntries] at h
    split at h
    · cases h
    · split at h
      · cases h
      · next bs' hbs =>
        cases h
        rw [List.map_cons, List.map_cons, ih hbs]

theorem traverseEntries_mem {f : κ → α → Except ε β} {l : List (κ × α)} {bs : List (κ × β)}
    (h : traverseEntries f l = .ok bs) : ∀ x ∈ bs, ∃ a, (x.1, a) ∈ l ∧ f x.1 a = .ok x.2 := by
  induction l generalizing bs with
  | nil => cases h; intro x hx; cases hx
  | cons y l ih =>
    obtain ⟨k, a⟩ := y
    simp only [traverseEntries] at h
    split at h
    · cases h
    · next b hb =>
      split at h
      · cases h
      · next bs' hbs =>
        cases h
        intro x hx
        rcases List.mem_cons.1 hx with rfl | hx
        · exact ⟨a, List.mem_cons_self, hb⟩
        · obtain ⟨a', ha', hf⟩ := ih hbs x hx
          exact ⟨a', List.mem_cons_of_mem _ ha', hf⟩

theorem traverseEntries_congr {f g : κ → α → Except ε β} {l : List (κ × α)}
    (h : ∀ x ∈ l, f x.1 x.2 = g x.1 x.2) : traverseEntries f l = traverseEntries g l := by
  induction l with
  | nil => rfl
  | cons x l ih =>
    obtain ⟨k, a⟩ := x
    have hrest := ih fun y hy => h y (List.mem_cons_of_mem _ hy)
    have hx : f k a = g k a := h (k, a) List.mem_cons_self
    simp only [traverseEntries, hx, hrest]

variable [LinearOrder κ]

def empty : SortedMap κ α := ⟨[], .nil⟩

def keys (m : SortedMap κ α) : List κ := m.entries.map Prod.fst

def values (m : SortedMap κ α) : List α := m.entries.map Prod.snd

theorem ext {m n : SortedMap κ α} (h : m.entries = n.entries) : m = n := by
  cases m; cases n; cases h; rfl

def traverse (f : κ → α → Except ε β) (m : SortedMap κ α) : Except ε (SortedMap κ β) :=
  match h : traverseEntries f m.entries with
  | .error e => .error e
  | .ok bs => .ok ⟨bs, by rw [traverseEntries_keys h]; exact m.sorted⟩

theorem traverse_ok {f : κ → α → Except ε β} {m : SortedMap κ α} {n : SortedMap κ β}
    (h : m.traverse f = .ok n) : traverseEntries f m.entries = .ok n.entries := by
  unfold traverse at h
  split at h
  · cases h
  · next bs hbs => cases h; exact hbs

theorem traverse_keys {f : κ → α → Except ε β} {m : SortedMap κ α} {n : SortedMap κ β}
    (h : m.traverse f = .ok n) : n.keys = m.keys :=
  traverseEntries_keys (traverse_ok h)

theorem traverse_mem {f : κ → α → Except ε β} {m : SortedMap κ α} {n : SortedMap κ β}
    (h : m.traverse f = .ok n) : ∀ x ∈ n.entries, ∃ a, (x.1, a) ∈ m.entries ∧ f x.1 a = .ok x.2 :=
  traverseEntries_mem (traverse_ok h)

theorem traverse_entries (f : κ → α → Except ε β) (m : SortedMap κ α) :
    (m.traverse f).map entries = traverseEntries f m.entries := by
  unfold traverse
  split
  · next e he => exact he.symm
  · next bs hbs => exact hbs.symm

/-- Only what `f` makes of the entries matters. -/
theorem traverse_congr {f g : κ → α → Except ε β} {m : SortedMap κ α}
    (h : ∀ x ∈ m.entries, f x.1 x.2 = g x.1 x.2) : m.traverse f = m.traverse g := by
  have hentries : (m.traverse f).map entries = (m.traverse g).map entries := by
    rw [traverse_entries, traverse_entries, traverseEntries_congr h]
  cases hf : m.traverse f with
  | ok n =>
    cases hg : m.traverse g with
    | ok n' =>
      rw [hf, hg] at hentries
      rw [ext (Except.ok.inj hentries)]
    | error e =>
      rw [hf, hg] at hentries
      cases hentries
  | error e =>
    cases hg : m.traverse g with
    | ok n' =>
      rw [hf, hg] at hentries
      cases hentries
    | error e' =>
      rw [hf, hg] at hentries
      exact congrArg _ (Except.error.inj hentries)

end SortedMap
