import NetCore.Lib.Table

/-!
# Least recently used caches

A `Cache` is a list of entries, the most recently used first, at most `cap` of
them.  `use` puts an entry in front and drops the last one past the cap; `keep`
removes the entries that fail a test; `expire` keeps a number of the most recent.

* `keys_uses`: after uses only, the keys are the `cap` most recently used ones
  (`recent`), so a larger cache has the keys of a smaller one.
* `Recent`: a table whose entries carry stamps, in the order of the stamps.  A
  table that stamps what it inserts with a new greatest stamp, and drops an entry
  of least stamp when it is full, is a cache (`Recent.insert`, `Recent.erase_min`);
  dropping what is older than a bound is `expire` (`Recent.keysWhere_old`).
-/

namespace Lru

open HashTable

variable {κ ν : Type} [DecidableEq κ]

/-- The entries other than that of `k`. -/
def without (k : κ) (l : List (κ × ν)) : List (κ × ν) := l.filter fun e => e.1 ≠ k

omit [DecidableEq κ] in
theorem nodup_keys_filter {l : List (κ × ν)} (h : (l.map Prod.fst).Nodup) (p : κ × ν → Bool) :
    ((l.filter p).map Prod.fst).Nodup :=
  (List.filter_sublist.map Prod.fst).nodup h

theorem nodup_keys_front {l : List (κ × ν)} (h : (l.map Prod.fst).Nodup) (k : κ) (v : ν) :
    (((k, v) :: without k l).map Prod.fst).Nodup := by
  rw [List.map_cons, List.nodup_cons]
  refine ⟨?_, nodup_keys_filter h _⟩
  simp [without]

structure Cache (κ ν : Type) (cap : Nat) where
  entries : List (κ × ν)
  nodup : (entries.map Prod.fst).Nodup
  bounded : entries.length ≤ cap

variable {cap : Nat}

def Cache.empty : Cache κ ν cap := ⟨[], List.nodup_nil, Nat.zero_le _⟩

def Cache.use (c : Cache κ ν cap) (k : κ) (v : ν) : Cache κ ν cap where
  entries := ((k, v) :: without k c.entries).take cap
  nodup := by
    rw [List.map_take]
    exact (List.take_sublist _ _).nodup (nodup_keys_front c.nodup k v)
  bounded := List.length_take_le _ _

def Cache.keep (c : Cache κ ν cap) (p : ν → Bool) : Cache κ ν cap where
  entries := c.entries.filter fun e => p e.2
  nodup := nodup_keys_filter c.nodup _
  bounded := (List.length_filter_le _ _).trans c.bounded

def Cache.expire (c : Cache κ ν cap) (n : Nat) : Cache κ ν cap where
  entries := c.entries.take n
  nodup := by
    rw [List.map_take]
    exact (List.take_sublist _ _).nodup c.nodup
  bounded := (List.length_take_le' _ _).trans c.bounded

inductive Op (κ ν : Type)
  | use (k : κ) (v : ν)
  | keep (p : ν → Bool)
  | expire (n : Nat)

def Cache.apply (c : Cache κ ν cap) : Op κ ν → Cache κ ν cap
  | .use k v => c.use k v
  | .keep p => c.keep p
  | .expire n => c.expire n

/-- The cache after the operations, the newest first. -/
def Cache.after (cap : Nat) (ops : List (Op κ ν)) : Cache κ ν cap :=
  ops.foldr (fun op c => c.apply op) .empty

/-! ## Uses only -/

/-- Each key once, in the order of the last uses; the newest use is first. -/
def recent : List κ → List κ
  | [] => []
  | k :: ks => k :: (recent ks).filter fun j => j ≠ k

theorem take_filter_ne {α : Type} [DecidableEq α] {l : List α} (h : l.Nodup) (k : α) (n : Nat) :
    ((l.take n).filter fun j => j ≠ k).take (n - 1) = (l.filter fun j => j ≠ k).take (n - 1) := by
  induction l generalizing n with
  | nil => simp
  | cons a l ih =>
    rw [List.nodup_cons] at h
    cases n with
    | zero => simp
    | succ n =>
      rw [List.take_succ_cons]
      by_cases hak : a = k
      · -- the key goes, and nothing else does
        subst hak
        have hl : ∀ m, (l.take m).filter (fun j => decide (j ≠ a)) = l.take m := by
          intro m
          rw [List.filter_eq_self]
          intro j hj
          rw [decide_eq_true_eq]
          exact fun e => h.1 (e ▸ List.mem_of_mem_take hj)
        have hall : l.filter (fun j => decide (j ≠ a)) = l := by
          have := hl l.length
          rwa [List.take_length] at this
        rw [List.filter_cons_of_neg (by simp), List.filter_cons_of_neg (by simp), hl, hall,
          List.take_take]
        simp
      · rw [List.filter_cons_of_pos (by simpa using hak), List.filter_cons_of_pos (by simpa using hak)]
        cases n with
        | zero => rfl
        | succ n =>
          show ((a :: _).take (n + 1)) = ((a :: _).take (n + 1))
          rw [List.take_succ_cons, List.take_succ_cons]
          exact congrArg (a :: ·) (ih h.2 (n + 1))

theorem nodup_recent (ks : List κ) : (recent ks).Nodup := by
  induction ks with
  | nil => exact List.nodup_nil
  | cons k ks ih =>
    rw [recent, List.nodup_cons]
    exact ⟨by simp, ih.filter _⟩

omit [DecidableEq κ] in
theorem map_fst_filter (l : List (κ × ν)) (p : κ → Bool) :
    (l.filter fun e => p e.1).map Prod.fst = (l.map Prod.fst).filter p := by
  rw [List.filter_map]
  rfl

/-- **The most recent keys.**  After uses only, the keys of a cache are the `cap`
most recently used ones. -/
theorem keys_uses (cap : Nat) (uses : List (κ × ν)) :
    (Cache.after cap (uses.map fun e => Op.use e.1 e.2)).entries.map Prod.fst =
      (recent (uses.map Prod.fst)).take cap := by
  induction uses with
  | nil => simp [Cache.after, Cache.empty, recent]
  | cons e uses ih =>
    show ((((e.1, e.2) :: without e.1 _).take cap).map Prod.fst) = _
    rw [List.map_take, List.map_cons, List.map_cons, recent]
    cases cap with
    | zero => rfl
    | succ n =>
      rw [List.take_succ_cons, List.take_succ_cons]
      unfold without
      rw [map_fst_filter (p := fun j => decide (j ≠ e.1))]
      have htake := take_filter_ne (nodup_recent (uses.map Prod.fst)) e.1 (n + 1)
      rw [← ih] at htake
      exact congrArg (e.1 :: ·) htake

/-! ## Tables with stamps -/

/-- The entries of the table are those of the list, which has greater stamps
first. -/
structure Recent (f : ν → Nat) (t : Table κ ν) (l : List (κ × ν)) : Prop where
  lookup : ∀ k v, t.lookup k = some v ↔ (k, v) ∈ l
  sorted : l.Pairwise fun a b => f b.2 < f a.2

variable {f : ν → Nat} {t : Table κ ν} {l : List (κ × ν)}

theorem Recent.empty : Recent f (∅ : Table κ ν) [] := ⟨fun k v => by simp, .nil⟩

theorem Recent.nodup_keys (h : Recent f t l) : (l.map Prod.fst).Nodup := by
  rw [List.Nodup, List.pairwise_map]
  apply h.sorted.imp_of_mem
  rintro ⟨k, v⟩ ⟨k', v'⟩ ha hb hlt heq
  -- one key has one value, so its stamp is not less than itself
  have hv := (h.lookup k v).2 ha
  have hv' := (h.lookup k' v').2 hb
  simp only at heq hlt
  subst heq
  rw [hv, Option.some.injEq] at hv'
  subst hv'
  omega

theorem Recent.length_eq (h : Recent f t l) : length t = l.length := by
  have hkeys : (l.map Prod.fst).length = l.length := List.length_map _
  rw [length_eq_keys, ← hkeys]
  apply List.Perm.length_eq
  rw [List.perm_ext_iff_of_nodup t.keys_nodup h.nodup_keys]
  intro k
  have hmem : k ∈ t.keys ↔ ∃ v, t.lookup k = some v := by
    rw [← Option.isSome_iff_exists]
    exact AList.lookup_isSome.symm
  rw [hmem, List.mem_map]
  constructor
  · rintro ⟨v, hv⟩
    exact ⟨(k, v), (h.lookup k v).1 hv, rfl⟩
  · rintro ⟨⟨k, v⟩, hm, rfl⟩
    exact ⟨v, (h.lookup k v).2 hm⟩

/-- What is inserted with a new greatest stamp goes in front. -/
theorem Recent.insert (h : Recent f t l) (k : κ) {v : ν} (hv : ∀ e ∈ l, f e.2 < f v) :
    Recent f (t.insert k v) ((k, v) :: without k l) where
  lookup := by
    intro j w
    rw [lookup_insert_eq, List.mem_cons, without, List.mem_filter, Prod.mk.injEq, decide_eq_true_eq,
      ← h.lookup]
    by_cases hjk : j = k
    · rw [if_pos hjk, Option.some.injEq]
      simp [hjk, eq_comm]
    · simp [hjk]
  sorted := by
    rw [List.pairwise_cons]
    exact ⟨fun e he => hv e (List.mem_of_mem_filter he), h.sorted.sublist List.filter_sublist⟩

/-- An entry of least stamp is the last one. -/
theorem Recent.min_last (h : Recent f t l) {it : IterOrder κ ν} {k : κ}
    (hk : minByKey it f t = some k) : ∃ front v, l = front ++ [(k, v)] := by
  obtain ⟨v, hv, hleast⟩ := minByKey_some hk
  have hm := (h.lookup k v).1 hv
  obtain ⟨front, ⟨k', v'⟩, rfl⟩ := (List.eq_nil_or_concat' l).resolve_left (List.ne_nil_of_mem hm)
  obtain ⟨-, -, hcross⟩ := List.pairwise_append.1 h.sorted
  rcases List.mem_append.1 hm with hfront | hlast
  · have hlt := hcross _ hfront (k', v') (List.mem_singleton_self _)
    have hle := hleast k' v' ((h.lookup k' v').2 (by simp))
    simp only at hlt
    omega
  · obtain ⟨rfl, rfl⟩ := Prod.mk.inj (List.mem_singleton.1 hlast)
    exact ⟨front, v, rfl⟩

theorem Recent.erase_min (h : Recent f t l) {it : IterOrder κ ν} {k : κ}
    (hk : minByKey it f t = some k) : Recent f (t.erase k) l.dropLast := by
  obtain ⟨front, v, rfl⟩ := h.min_last hk
  have hnd := h.nodup_keys
  rw [List.map_append, List.nodup_append] at hnd
  rw [List.dropLast_concat]
  refine ⟨fun j w => ?_, (List.pairwise_append.1 h.sorted).1⟩
  rw [lookup_erase_eq]
  by_cases hjk : j = k
  · rw [if_pos hjk]
    subst hjk
    constructor
    · intro hn
      cases hn
    · intro hmem
      exact absurd rfl (hnd.2.2 j (List.mem_map_of_mem hmem) j (by simp))
  · rw [if_neg hjk, h.lookup, List.mem_append, List.mem_singleton, Prod.mk.injEq]
    simp [hjk]

/-- Removing the entries that pass a test. -/
theorem Recent.keysWhere (h : Recent f t l) (it : IterOrder κ ν) (p : ν → Bool) :
    Recent f (eraseAll t (keysWhere it p t)) (l.filter fun e => !p e.2) where
  lookup k v := by
    rw [lookup_eraseAll_keysWhere, h.lookup, List.mem_filter]
    simp
  sorted := h.sorted.sublist List.filter_sublist

omit [DecidableEq κ] in
/-- A test that fails for an entry and all after it keeps a front part. -/
theorem filter_eq_take {α : Type} {p : α → Bool} {l : List α}
    (h : l.Pairwise fun a b => p b = true → p a = true) : l.filter p = l.take (l.filter p).length := by
  induction l with
  | nil => rfl
  | cons a l ih =>
    rw [List.pairwise_cons] at h
    by_cases ha : p a = true
    · rw [List.filter_cons_of_pos ha, List.length_cons, List.take_succ_cons, ← ih h.2]
    · have hnone : l.filter p = [] := by
        rw [List.filter_eq_nil_iff]
        exact fun b hb hpb => ha (h.1 b hb hpb)
      rw [List.filter_cons_of_neg ha, hnone]
      rfl

/-- Removing what has a stamp too small for the test keeps the most recent. -/
theorem Recent.keysWhere_old (h : Recent f t l) (it : IterOrder κ ν) {p : ν → Bool}
    (hp : ∀ v w, f v ≤ f w → p w = true → p v = true) :
    Recent f (eraseAll t (HashTable.keysWhere it p t))
      (l.take (length (eraseAll t (HashTable.keysWhere it p t)))) := by
  have hkept := h.keysWhere it p
  have htake : (l.filter fun e => !p e.2) = l.take (l.filter fun e => !p e.2).length := by
    apply filter_eq_take
    apply h.sorted.imp
    intro a b hlt hb
    simp only [Bool.not_eq_true'] at hb ⊢
    by_contra ha
    rw [hp b.2 a.2 (by omega) (Bool.of_not_eq_false ha)] at hb
    cases hb
  rw [hkept.length_eq, ← htake]
  exact hkept

end Lru
