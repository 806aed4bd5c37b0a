import Mathlib.Data.List.Nodup
import Mathlib.Data.List.Perm.Basic

/-!
# Grouped rows

A table gives each key a list of values; its rows are, for each key in turn, one
row for each value.  The values of a key are read back by its tag
(`valuesOf_rows`), and rows by ascending key depend on the table alone: a key
without values may be listed or not (`rows_eq_iff`).
-/

namespace Grouped

variable {κ τ ν : Type} {tag : κ → τ} {f g : κ → List ν} {ks ls : List κ}

/-- The rows of the keys; a row carries the tag of its key. -/
def rows (tag : κ → τ) (f : κ → List ν) (keys : List κ) : List (τ × ν) :=
  keys.flatMap fun k => (f k).map fun v => (tag k, v)

theorem rows_cons (tag : κ → τ) (f : κ → List ν) (k : κ) (ks : List κ) :
    rows tag f (k :: ks) = ((f k).map fun v => (tag k, v)) ++ rows tag f ks := rfl

theorem rows_congr (h : ∀ k ∈ ks, f k = g k) : rows tag f ks = rows tag g ks := by
  unfold rows
  rw [List.flatMap_def, List.flatMap_def]
  congr 1
  apply List.map_congr_left
  intro k hk
  rw [h k hk]

/-- A key without values has no rows. -/
theorem rows_filter (tag : κ → τ) (f : κ → List ν) (ks : List κ) :
    rows tag f (ks.filter fun k => (f k).length ≠ 0) = rows tag f ks := by
  induction ks with
  | nil => rfl
  | cons k ks ih =>
    by_cases hk : (f k).length ≠ 0
    · rw [List.filter_cons_of_pos (by simpa using hk), rows_cons, ih, rows_cons]
    · have hnil : f k = [] := List.length_eq_zero_iff.1 (not_not.1 hk)
      rw [List.filter_cons_of_neg (by simpa using hk), ih, rows_cons, hnil]
      rfl

/-- The values in the rows of a tag. -/
def valuesOf [DecidableEq τ] (t : τ) (rs : List (τ × ν)) : List ν :=
  (rs.filter fun r => r.1 = t).map Prod.snd

variable [DecidableEq τ]

theorem valuesOf_append (t : τ) (rs ss : List (τ × ν)) :
    valuesOf t (rs ++ ss) = valuesOf t rs ++ valuesOf t ss := by
  unfold valuesOf
  rw [List.filter_append, List.map_append]

theorem valuesOf_group (t : τ) (k : κ) :
    valuesOf t ((f k).map fun v => (tag k, v)) = if tag k = t then f k else [] := by
  unfold valuesOf
  by_cases h : tag k = t
  · rw [if_pos h, List.filter_eq_self.2, List.map_map]
    · exact List.map_id _
    · intro r hr
      obtain ⟨v, -, rfl⟩ := List.mem_map.1 hr
      exact decide_eq_true h
  · rw [if_neg h, List.filter_eq_nil_iff.2]
    · rfl
    · intro r hr
      obtain ⟨v, -, rfl⟩ := List.mem_map.1 hr
      simpa using h

/-- **Reading back.**  Where each key is listed once, its tag finds its values. -/
theorem valuesOf_rows (htag : Function.Injective tag) (f : κ → List ν) (hks : ks.Nodup) {k : κ}
    (hk : f k ≠ [] → k ∈ ks) : valuesOf (tag k) (rows tag f ks) = f k := by
  induction ks with
  | nil =>
    by_contra hne
    exact absurd (hk (Ne.symm hne)) List.not_mem_nil
  | cons a ks ih =>
    rw [List.nodup_cons] at hks
    rw [rows_cons, valuesOf_append, valuesOf_group]
    by_cases ha : a = k
    · subst ha
      -- no row of this tag is left
      have hrest : valuesOf (tag a) (rows tag f ks) = [] := by
        unfold valuesOf
        rw [List.map_eq_nil_iff, List.filter_eq_nil_iff]
        intro r hr hra
        obtain ⟨b, hb, hrb⟩ := List.mem_flatMap.1 hr
        obtain ⟨v, -, rfl⟩ := List.mem_map.1 hrb
        rw [decide_eq_true_eq] at hra
        exact hks.1 (htag hra ▸ hb)
      rw [if_pos rfl, hrest, List.append_nil]
    · rw [if_neg (fun h => ha (htag h)), List.nil_append]
      refine ih hks.2 fun hne => ?_
      rcases List.mem_cons.1 (hk hne) with h | h
      · exact absurd h.symm ha
      · exact h

/-- **Rows by ascending key** are those of the table: two tables have the same rows
if they give every key the same values, and only then. -/
theorem rows_eq_iff {lt : κ → κ → Prop} [Std.Asymm lt] (htag : Function.Injective tag)
    (hks : ks.Pairwise lt) (hls : ls.Pairwise lt) (hf : ∀ k, f k ≠ [] → k ∈ ks)
    (hg : ∀ k, g k ≠ [] → k ∈ ls) : rows tag f ks = rows tag g ls ↔ ∀ k, f k = g k := by
  have hnodup : ∀ {l : List κ}, l.Pairwise lt → l.Nodup := by
    intro l hl
    apply hl.imp
    rintro a b hab rfl
    exact Std.Asymm.asymm a a hab hab
  constructor
  · intro h k
    rw [← valuesOf_rows htag f (hnodup hks) (hf k), h, valuesOf_rows htag g (hnodup hls) (hg k)]
  · intro h
    have hkeys : (ks.filter fun k => (f k).length ≠ 0) = ls.filter fun k => (g k).length ≠ 0 := by
      refine List.Perm.eq_of_pairwise ?_ (hks.filter _) (hls.filter _) ?_
      · intro a b _ _ hab hba
        exact absurd hba (Std.Asymm.asymm a b hab)
      · rw [List.perm_ext_iff_of_nodup ((hnodup hks).filter _) ((hnodup hls).filter _)]
        intro k
        have hmem : ∀ {v : List ν}, v ≠ [] ↔ v.length ≠ 0 := by
          intro v
          rw [Ne, Ne, List.length_eq_zero_iff]
        simp only [List.mem_filter, decide_eq_true_eq, ← hmem, h k]
        constructor
        · rintro ⟨-, hne⟩
          exact ⟨hg k hne, hne⟩
        · rintro ⟨-, hne⟩
          exact ⟨hf k (h k ▸ hne), hne⟩
    rw [← rows_filter tag f ks, ← rows_filter tag g ls, hkeys]
    exact rows_congr fun k _ => h k

end Grouped
