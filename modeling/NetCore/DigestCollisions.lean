import NetCore.Digest

/-!
# What the digest tells apart

`digest_credential_bundle` takes any list of pairs.  Two of its lists with one
preimage need not hold the same pairs: a value may spell out a line end and the
next pair, or a field an equals sign (`digestPreimage_separates_iff`).  Nor do all
orders of one list give one preimage: the sort keeps pairs with the same field in
the order they came (`digestPreimage_reorder_iff`).

    digestPreimage_perm   fields without `=`, values without a line feed: told apart
-/

namespace NetCore

open Framing

theorem framed_single (f v : String) : framed [(f, v)] = record '=' '\n' (f.toList, v.toList) := by
  simp [framed]

@[simp] theorem sortPairs_single (x : String × String) : sortPairs [x] = [x] := rfl

theorem sortPairs_perm (xs : List (String × String)) : (sortPairs xs).Perm xs :=
  List.perm_insertionSort _ xs

theorem sortPairs_sorted (xs : List (String × String)) :
    (sortPairs xs).Pairwise fun a b => a.1 ≤ b.1 := by
  have htotal : Std.Total fun a b : String × String => a.1 ≤ b.1 := ⟨fun a b => le_total a.1 b.1⟩
  have htrans : IsTrans (String × String) fun a b => a.1 ≤ b.1 := ⟨fun _ _ _ => le_trans⟩
  exact List.pairwise_insertionSort _ xs

theorem digestPreimage_eq_iff (xs ys : List (String × String)) :
    digestPreimage xs = digestPreimage ys ↔ framed (sortPairs xs) = framed (sortPairs ys) := by
  constructor
  · exact digestPreimage_inj
  · intro h
    rw [digestPreimage_eq, digestPreimage_eq, h]

/-! ## Lists with one preimage -/

/-- Told apart: no field holds the separator, no value the line end. -/
def Unambiguous (xs : List (String × String)) : Prop :=
  ∀ x ∈ xs, '=' ∉ x.1.toList ∧ '\n' ∉ x.2.toList

/-- **Unambiguous lists** with one preimage hold the same pairs. -/
theorem digestPreimage_perm {xs ys : List (String × String)} (hx : Unambiguous xs)
    (hy : Unambiguous ys) (h : digestPreimage xs = digestPreimage ys) : ys.Perm xs := by
  have hlists : ∀ zs, Unambiguous zs → ∀ f ∈ (sortPairs zs).map fun kv => (kv.1.toList, kv.2.toList),
      '=' ∉ f.1 ∧ '\n' ∉ f.2 := by
    intro zs hz f hf
    obtain ⟨kv, hkv, rfl⟩ := List.mem_map.1 hf
    exact hz kv ((sortPairs_perm zs).mem_iff.1 hkv)
  have hframe := frame_inj (hlists xs hx) (hlists ys hy) (digestPreimage_inj h)
  have hinj : Function.Injective fun kv : String × String => (kv.1.toList, kv.2.toList) := by
    intro a b hab
    rw [Prod.mk.injEq] at hab
    exact Prod.ext (String.toList_inj.1 hab.1) (String.toList_inj.1 hab.2)
  have hsort : sortPairs xs = sortPairs ys := List.map_injective_iff.2 hinj hframe
  exact (sortPairs_perm ys).symm.trans (hsort ▸ sortPairs_perm xs)

/-- One pair, with no equals sign but the separator. -/
def PlainPair (xs : List (String × String)) : Prop :=
  ∃ f v, xs = [(f, v)] ∧ '=' ∉ f.toList ∧ '=' ∉ v.toList

/-- Every list of two or more pairs has the preimage of a list of one. -/
theorem exists_single_preimage (x y : String × String) (xs : List (String × String)) :
    ∃ z, digestPreimage (x :: y :: xs) = digestPreimage [z] := by
  have hlen := (sortPairs_perm (x :: y :: xs)).length_eq
  cases hs : sortPairs (x :: y :: xs) with
  | nil =>
    rw [hs] at hlen
    simp at hlen
  | cons a rest =>
    obtain ⟨v, hv⟩ := frame_eq_record '=' '\n' (a.1.toList, a.2.toList)
      (rest.map fun kv => (kv.1.toList, kv.2.toList))
    refine ⟨(a.1, String.ofList v), ?_⟩
    rw [digestPreimage_eq_iff, hs, sortPairs_single, framed_single, String.toList_ofList]
    exact hv

/-- A pair with one more equals sign can be cut there. -/
theorem exists_other_cut {f v : String} (h : '=' ∈ f.toList ∨ '=' ∈ v.toList) :
    ∃ z, z ≠ (f, v) ∧ digestPreimage [(f, v)] = digestPreimage [z] := by
  simp only [digestPreimage_eq_iff, sortPairs_single]
  rcases h with h | h
  · obtain ⟨a, b, hab⟩ := List.append_of_mem h
    refine ⟨(String.ofList a, String.ofList (b ++ '=' :: v.toList)), ?_, ?_⟩
    · intro heq
      rw [← (Prod.mk.inj heq).1, String.toList_ofList] at hab
      exact absurd (congrArg List.length hab) (by simp)
    · rw [framed_single, framed_single, hab]
      simp [record]
  · obtain ⟨a, b, hab⟩ := List.append_of_mem h
    refine ⟨(String.ofList (f.toList ++ '=' :: a), String.ofList b), ?_, ?_⟩
    · intro heq
      rw [← (Prod.mk.inj heq).2, String.toList_ofList] at hab
      have hlen := congrArg List.length hab
      simp at hlen
      omega
    · rw [framed_single, framed_single, hab]
      simp [record]

theorem digestPreimage_nil {ys : List (String × String)}
    (h : digestPreimage [] = digestPreimage ys) : ys = [] := by
  have hf := digestPreimage_inj h
  have hcount := length_le_count (show '\n' ≠ '=' by decide)
    ((sortPairs ys).map fun kv => (kv.1.toList, kv.2.toList))
  have hnil : framed (sortPairs ys) = [] := hf.symm
  unfold framed at hnil
  rw [hnil, List.length_map, (sortPairs_perm ys).length_eq] at hcount
  exact List.length_eq_zero_iff.1 (by simpa using hcount)

/-- The pair with a single equals sign is the only list with its preimage. -/
theorem digestPreimage_plain {f v : String} {ys : List (String × String)} (hf : '=' ∉ f.toList)
    (hv : '=' ∉ v.toList) (h : digestPreimage [(f, v)] = digestPreimage ys) : ys = [(f, v)] := by
  have hframed := digestPreimage_inj h
  rw [sortPairs_single, framed_single] at hframed
  have hone : (record '=' '\n' (f.toList, v.toList)).count '=' = 1 := by
    rw [count_record (by decide), List.count_eq_zero.2 hf, List.count_eq_zero.2 hv]
  have hlen := length_le_count (show '\n' ≠ '=' by decide)
    ((sortPairs ys).map fun kv => (kv.1.toList, kv.2.toList))
  have hys := (sortPairs_perm ys).length_eq
  cases hs : sortPairs ys with
  | nil =>
    rw [hs] at hframed
    simp [framed, record] at hframed
  | cons z rest =>
    cases rest with
    | cons w rest =>
      unfold framed at hframed
      rw [← hframed, hone, hs] at hlen
      simp at hlen
    | nil =>
      rw [hs] at hframed hys
      obtain ⟨f', v'⟩ := z
      rw [framed_single] at hframed
      rw [hframed, count_record (by decide)] at hone
      dsimp only at hone
      have hf' : '=' ∉ f'.toList := List.count_eq_zero.1 (by omega)
      simp only [record] at hframed
      obtain ⟨hfield, hvalue⟩ := append_stop_inj hf hf' hframed
      have hsingle : ys = [(f', v')] := List.perm_singleton.1 (hs ▸ (sortPairs_perm ys).symm)
      rw [hsingle, String.toList_inj.1 hfield,
        String.toList_inj.1 (List.append_cancel_right hvalue)]

/-- The lists with a preimage of their own. -/
theorem separates_all_iff (xs : List (String × String)) :
    (∀ ys, digestPreimage xs = digestPreimage ys → ys.Perm xs) ↔ xs = [] ∨ PlainPair xs := by
  constructor
  · intro h
    cases xs with
    | nil => exact Or.inl rfl
    | cons x rest =>
      cases rest with
      | cons y rest =>
        obtain ⟨z, hz⟩ := exists_single_preimage x y rest
        exact absurd (h [z] hz).length_eq (by simp)
      | nil =>
        obtain ⟨f, v⟩ := x
        by_cases heq : '=' ∈ f.toList ∨ '=' ∈ v.toList
        · obtain ⟨z, hne, hz⟩ := exists_other_cut heq
          exact absurd (List.singleton_perm_singleton.1 (h [z] hz)) hne
        · rw [not_or] at heq
          exact Or.inr ⟨f, v, rfl, heq⟩
  · rintro (rfl | ⟨f, v, rfl, hf, hv⟩) ys h
    · rw [digestPreimage_nil h]
    · rw [digestPreimage_plain hf hv h]

/-- **Which lists the preimage identifies**: against every list, the empty one and one
pair whose only equals sign is the separator; among the unambiguous ones, all. -/
theorem digestPreimage_separates_iff (xs : List (String × String)) :
    ((∀ ys, digestPreimage xs = digestPreimage ys → ys.Perm xs) ↔ xs = [] ∨ PlainPair xs) ∧
      (Unambiguous xs → ∀ ys, Unambiguous ys → digestPreimage xs = digestPreimage ys →
        ys.Perm xs) := by
  refine ⟨separates_all_iff xs, ?_⟩
  intro hx ys hy h
  exact digestPreimage_perm hx hy h

/-- A value that spells out the next pair. -/
theorem digestPreimage_collision :
    digestPreimage [("a", "b"), ("c", "d")] = digestPreimage [("a", "b\nc=d")] ∧
      ¬ [("a", "b\nc=d")].Perm [("a", "b"), ("c", "d")] := by
  refine ⟨?_, fun h => absurd h.length_eq (by decide)⟩
  rw [digestPreimage_eq_iff]
  decide

/-! ## Orders of one list -/

/-- Pairs with the same field may change places: the two texts `f=v\nf=w\n` and
`f=w\nf=v\n` are one. -/
def TiesCommute (xs : List (String × String)) : Prop :=
  ∀ x ∈ xs, ∀ y ∈ xs, x.1 = y.1 → framed [x, y] = framed [y, x]

/-- A stable sort leaves two neighbours that are tied as they are. -/
theorem insertionSort_tie {β : Type} {r : β → β → Prop} [DecidableRel r] {a b : β} (hab : r a b)
    (hrel : ∀ c, r b c ↔ r a c) (rest : List β) :
    (a :: b :: rest).insertionSort r =
      (rest.insertionSort r).takeWhile (fun c => ¬ r a c) ++
        a :: b :: (rest.insertionSort r).dropWhile (fun c => ¬ r a c) := by
  have hall : ∀ c ∈ (rest.insertionSort r).takeWhile (fun c => ¬ r a c),
      decide (¬ r a c) = true :=
    fun c hc => List.mem_takeWhile_imp (p := fun c => decide (¬ r a c)) hc
  rw [List.insertionSort_cons_eq_take_drop, List.insertionSort_cons_eq_take_drop]
  simp only [hrel]
  rw [List.takeWhile_append_of_pos hall, List.dropWhile_append_of_pos hall]
  simp [hab]

/-- Two pairs with the same field stay neighbours, in the order they came. -/
theorem sortPairs_tie (f v w : String) (rest : List (String × String)) :
    ∃ before after, sortPairs ((f, v) :: (f, w) :: rest) = before ++ (f, v) :: (f, w) :: after ∧
      sortPairs ((f, w) :: (f, v) :: rest) = before ++ (f, w) :: (f, v) :: after :=
  have htie : ∀ v w : String, sortPairs ((f, v) :: (f, w) :: rest) =
      (sortPairs rest).takeWhile (fun c => ¬ f ≤ c.1) ++
        (f, v) :: (f, w) :: (sortPairs rest).dropWhile (fun c => ¬ f ≤ c.1) := fun v w =>
    insertionSort_tie (r := fun a b : String × String => a.1 ≤ b.1) (a := (f, v)) (b := (f, w))
      (le_refl f) (fun _ => Iff.rfl) rest
  ⟨_, _, htie v w, htie w v⟩

/-- **Which lists may be handed over in any order**: those whose pairs with the
same field commute. -/
theorem digestPreimage_reorder_iff (xs : List (String × String)) :
    (∀ ys, ys.Perm xs → digestPreimage ys = digestPreimage xs) ↔ TiesCommute xs := by
  constructor
  · rintro h ⟨f, v⟩ hx ⟨f', w⟩ hy (rfl : f = f')
    by_cases hvw : w = v
    · rw [hvw]
    · have hx' := List.perm_cons_erase hx
      have hy' : (f, w) ∈ xs.erase (f, v) := by
        rw [List.mem_erase_of_ne (fun e => hvw (congrArg Prod.snd e))]
        exact hy
      have hperm := hx'.trans ((List.perm_cons_erase hy').cons (f, v))
      have heq := (h _ hperm.symm).trans (h _ ((List.Perm.swap _ _ _).trans hperm.symm)).symm
      obtain ⟨before, after, hvw', hwv'⟩ := sortPairs_tie f v w ((xs.erase (f, v)).erase (f, w))
      rw [digestPreimage_eq_iff, hvw', hwv'] at heq
      have hcons : ∀ a b : String × String, framed (before ++ a :: b :: after) =
          framed before ++ (framed [a, b] ++ framed after) := by
        intro a b
        rw [← framed_append, ← framed_append]
        rfl
      rw [hcons, hcons] at heq
      exact List.append_cancel_right (List.append_cancel_left heq)
  · intro h ys hperm
    rw [digestPreimage_eq_iff]
    have htext : ∀ zs, framed zs =
        zs.flatMap fun kv => record '=' '\n' (kv.1.toList, kv.2.toList) := by
      intro zs
      simp [framed, frame, List.flatMap_map]
    have hsame := ((sortPairs_perm ys).trans hperm).trans (sortPairs_perm xs).symm
    rw [htext, htext]
    refine flatMap_eq_of_sorted _ hsame (sortPairs_sorted ys) (sortPairs_sorted xs) ?_
    intro x hx y hy hxy hyx
    have hmem : ∀ z ∈ sortPairs ys, z ∈ xs := fun z hz =>
      hperm.mem_iff.1 ((sortPairs_perm ys).mem_iff.1 hz)
    have hcomm := h x (hmem x hx) y (hmem y hy) (le_antisymm hxy hyx)
    rw [htext, htext] at hcomm
    simpa using hcomm

/-- Two values of one field, handed over in both orders. -/
theorem digestPreimage_reordered :
    [("a", "2"), ("a", "1")].Perm [("a", "1"), ("a", "2")] ∧
      digestPreimage [("a", "2"), ("a", "1")] ≠ digestPreimage [("a", "1"), ("a", "2")] := by
  refine ⟨List.Perm.swap _ _ _, ?_⟩
  rw [Ne, digestPreimage_eq_iff]
  decide

end NetCore
