import Mathlib.Data.List.AList
import Mathlib.Data.List.MinMax

/-!
# Hash tables walked in an unspecified order

A table is an `AList`: keys without duplicates, each with its value.  A hash
table hands out its entries in an order of its own, which may change whenever
the table does; `IterOrder` is any such order, and every result below holds for
all of them.

* `keysWhere`, `eraseAll`: collect the keys of the entries that pass a test,
  then remove them one by one.  The result depends on the test only
  (`lookup_eraseAll`, `mem_keysWhere`), and exactly as many entries go as keys
  were collected (`length_eraseAll_keysWhere`).
* `minByKey`: the first entry of least value in the walk (`minByKey_some`,
  `minByKey_of_ties`).
-/

namespace HashTable

abbrev Table (κ ν : Type) : Type := AList fun _ : κ => ν

variable {κ ν : Type}

/-- An order in which tables hand out their entries, each exactly once. -/
structure IterOrder (κ ν : Type) where
  walk : Table κ ν → List (Σ _ : κ, ν)
  perm : ∀ t, (walk t).Perm t.entries

/-- The order the entries are stored in. -/
def IterOrder.stored (κ ν : Type) : IterOrder κ ν := ⟨AList.entries, fun _ => .refl _⟩

def length (t : Table κ ν) : Nat := t.entries.length

/-- The keys of the entries that pass `p`, in the order of the walk. -/
def keysWhere (it : IterOrder κ ν) (p : ν → Bool) (t : Table κ ν) : List κ :=
  ((it.walk t).filter fun e => p e.2).map Sigma.fst

/-- The first key in the walk whose value has the least `f`. -/
def minByKey (it : IterOrder κ ν) (f : ν → Nat) (t : Table κ ν) : Option κ :=
  ((it.walk t).argmin fun e => f e.2).map Sigma.fst

theorem length_eq_keys (t : Table κ ν) : length t = t.keys.length := by
  simp [length, AList.keys, List.keys]

theorem length_empty : length (∅ : Table κ ν) = 0 := rfl

theorem nodup_keysWhere (it : IterOrder κ ν) (p : ν → Bool) (t : Table κ ν) :
    (keysWhere it p t).Nodup := by
  have hw : ((it.walk t).map Sigma.fst).Nodup :=
    ((it.perm t).map Sigma.fst).nodup_iff.2 t.keys_nodup
  exact (List.filter_sublist.map Sigma.fst).nodup hw

theorem minByKey_none {it : IterOrder κ ν} {f : ν → Nat} {t : Table κ ν}
    (h : minByKey it f t = none) : length t = 0 := by
  unfold minByKey at h
  rw [Option.map_eq_none_iff, List.argmin_eq_none] at h
  have := (it.perm t).length_eq
  rw [h] at this
  exact this.symm

variable [DecidableEq κ]

/-- Tables that answer every lookup alike have as many entries. -/
theorem length_eq_of_lookup {t u : Table κ ν} (h : ∀ k, t.lookup k = u.lookup k) :
    length t = length u := by
  apply List.Perm.length_eq
  apply List.lookup_ext t.nodupKeys u.nodupKeys
  intro k v
  exact Eq.to_iff (congrArg (v ∈ ·) (h k))

def eraseAll (t : Table κ ν) (ks : List κ) : Table κ ν := ks.foldl (fun t k => t.erase k) t

theorem length_insert_of_lookup_none {t : Table κ ν} {k : κ} (v : ν) (h : t.lookup k = none) :
    length (t.insert k v) = length t + 1 := by
  rw [length, AList.entries_insert_of_notMem (AList.lookup_eq_none.1 h), List.length_cons, length]

theorem length_erase_of_mem {t : Table κ ν} {k : κ} (h : k ∈ t) :
    length (t.erase k) + 1 = length t := by
  have hk : k ∈ t.keys := h
  have := List.length_pos_of_mem hk
  rw [length_eq_keys, length_eq_keys, AList.keys_erase, List.length_erase_of_mem hk]
  omega

theorem mem_of_lookup {t : Table κ ν} {k : κ} {v : ν} (h : t.lookup k = some v) : k ∈ t :=
  AList.lookup_isSome.1 (by rw [h]; rfl)

/-- Overwriting the value of a key that is there keeps the number of entries. -/
theorem length_insert_of_lookup {t : Table κ ν} {k : κ} {v : ν} (w : ν) (h : t.lookup k = some v) :
    length (t.insert k w) = length t := by
  have hk : k ∈ t.keys := mem_of_lookup h
  have := List.length_pos_of_mem hk
  rw [length_eq_keys, length_eq_keys, AList.keys_insert, List.length_cons,
    List.length_erase_of_mem hk]
  omega

theorem lookup_insert_eq (t : Table κ ν) (k k' : κ) (v : ν) :
    (t.insert k v).lookup k' = if k' = k then some v else t.lookup k' := by
  by_cases h : k' = k
  · subst h; rw [if_pos rfl, AList.lookup_insert]
  · rw [if_neg h, AList.lookup_insert_ne h]

theorem lookup_erase_eq (t : Table κ ν) (k k' : κ) :
    (t.erase k).lookup k' = if k' = k then none else t.lookup k' := by
  by_cases h : k' = k
  · subst h; rw [if_pos rfl, AList.lookup_erase]
  · rw [if_neg h, AList.lookup_erase_ne h]

/-! ## Removing a list of keys -/

theorem lookup_eraseAll (t : Table κ ν) (ks : List κ) (k : κ) :
    (eraseAll t ks).lookup k = if k ∈ ks then none else t.lookup k := by
  induction ks generalizing t with
  | nil => simp [eraseAll]
  | cons k' ks ih =>
    have step : eraseAll t (k' :: ks) = eraseAll (t.erase k') ks := rfl
    rw [step, ih, lookup_erase_eq]
    by_cases h1 : k = k'
    · simp [h1]
    · simp [h1]

theorem length_eraseAll (t : Table κ ν) (ks : List κ) (hn : ks.Nodup) (hm : ∀ k ∈ ks, k ∈ t) :
    length (eraseAll t ks) + ks.length = length t := by
  induction ks generalizing t with
  | nil => rfl
  | cons k ks ih =>
    have step : eraseAll t (k :: ks) = eraseAll (t.erase k) ks := rfl
    rw [List.nodup_cons] at hn
    have hrest : ∀ k' ∈ ks, k' ∈ t.erase k := fun k' hk' =>
      AList.mem_erase.2 ⟨fun e => hn.1 (e ▸ hk'), hm k' (List.mem_cons_of_mem _ hk')⟩
    have := ih (t.erase k) hn.2 hrest
    have := length_erase_of_mem (hm k List.mem_cons_self)
    rw [step, List.length_cons]
    omega

theorem mem_walk (it : IterOrder κ ν) (t : Table κ ν) (k : κ) (v : ν) :
    ⟨k, v⟩ ∈ it.walk t ↔ t.lookup k = some v := by
  rw [(it.perm t).mem_iff]
  exact AList.mem_lookup_iff.symm

theorem mem_keysWhere (it : IterOrder κ ν) (p : ν → Bool) (t : Table κ ν) (k : κ) :
    k ∈ keysWhere it p t ↔ ∃ v, t.lookup k = some v ∧ p v = true := by
  unfold keysWhere
  rw [List.mem_map]
  constructor
  · rintro ⟨⟨k, v⟩, hm, rfl⟩
    rw [List.mem_filter, mem_walk] at hm
    exact ⟨v, hm⟩
  · rintro ⟨v, hv, hp⟩
    exact ⟨⟨k, v⟩, List.mem_filter.2 ⟨(mem_walk it t k v).2 hv, hp⟩, rfl⟩

/-- The entries that pass the test are gone, the others are as they were. -/
theorem lookup_eraseAll_keysWhere (it : IterOrder κ ν) (p : ν → Bool) (t : Table κ ν) (k : κ)
    (v : ν) :
    (eraseAll t (keysWhere it p t)).lookup k = some v ↔ t.lookup k = some v ∧ p v = false := by
  rw [lookup_eraseAll]
  by_cases h : k ∈ keysWhere it p t
  · rw [if_pos h]
    obtain ⟨w, hw, hp⟩ := (mem_keysWhere it p t k).1 h
    constructor
    · intro hn; cases hn
    · rintro ⟨hv, hp'⟩
      rw [hw, Option.some.injEq] at hv
      rw [hv, hp'] at hp
      cases hp
  · rw [if_neg h]
    constructor
    · intro hv
      refine ⟨hv, ?_⟩
      cases hp : p v
      · rfl
      · exact absurd ((mem_keysWhere it p t k).2 ⟨v, hv, hp⟩) h
    · exact fun hv => hv.1

theorem length_eraseAll_keysWhere (it : IterOrder κ ν) (p : ν → Bool) (t : Table κ ν) :
    length (eraseAll t (keysWhere it p t)) + (keysWhere it p t).length = length t := by
  apply length_eraseAll t _ (nodup_keysWhere it p t)
  intro k hk
  obtain ⟨v, hv, -⟩ := (mem_keysWhere it p t k).1 hk
  exact mem_of_lookup hv

/-! ## The least entry -/

theorem minByKey_some {it : IterOrder κ ν} {f : ν → Nat} {t : Table κ ν} {k : κ}
    (h : minByKey it f t = some k) :
    ∃ v, t.lookup k = some v ∧ ∀ k' v', t.lookup k' = some v' → f v ≤ f v' := by
  unfold minByKey at h
  obtain ⟨⟨k, v⟩, hmin, rfl⟩ := Option.map_eq_some_iff.1 h
  refine ⟨v, (mem_walk it t k v).1 (List.argmin_mem hmin), fun k' v' hv' => ?_⟩
  exact List.le_of_mem_argmin (f := fun e : Σ _ : κ, ν => f e.2) ((mem_walk it t k' v').2 hv') hmin

/-- Where all values tie, the first entry of the walk is the least one. -/
theorem minByKey_of_ties {it : IterOrder κ ν} {f : ν → Nat} {t : Table κ ν} {n : Nat}
    (h : ∀ k v, t.lookup k = some v → f v = n) :
    minByKey it f t = ((it.walk t).head?).map Sigma.fst := by
  have hties : ∀ e ∈ it.walk t, f e.2 = n := fun e he => h e.1 e.2 ((mem_walk it t e.1 e.2).1 he)
  unfold minByKey
  congr 1
  cases hw : it.walk t with
  | nil => rfl
  | cons e rest =>
    rw [hw] at hties
    rw [List.argmin_cons, List.head?_cons]
    cases hrest : rest.argmin fun e => f e.2 with
    | none => rfl
    | some c =>
      -- the later entry is not less
      have hc := hties c (List.mem_cons_of_mem _ (List.argmin_mem hrest))
      have he := hties e List.mem_cons_self
      show (if f c.2 < f e.2 then some c else some e) = some e
      rw [if_neg (by omega)]

end HashTable
