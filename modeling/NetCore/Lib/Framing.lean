import Mathlib.Data.List.Basic

/-!
# Framed records

A record is a key, a separator, a value and a stop letter; nothing is escaped,
so in general the values cannot be read back.  They can when the keys are known
and no value holds the stop letter, and then what follows the records is known
too (`frame_append_inj`): the last value may hold anything.  They also can when no
key holds the separator and no value the stop letter (`frame_inj`).  Otherwise
several records read as one (`frame_eq_record`).

Records sorted by an order with ties are one text in any order of the ties if the
tied records commute (`flatMap_eq_of_sorted`).
-/

namespace Framing

variable {α : Type}

def record (sep stop : α) (f : List α × List α) : List α := f.1 ++ sep :: (f.2 ++ [stop])

def frame (sep stop : α) (fs : List (List α × List α)) : List α := fs.flatMap (record sep stop)

@[simp] theorem frame_nil (sep stop : α) : frame sep stop [] = [] := rfl

@[simp] theorem frame_cons (sep stop : α) (f : List α × List α) (fs : List (List α × List α)) :
    frame sep stop (f :: fs) = record sep stop f ++ frame sep stop fs := rfl

theorem frame_append (sep stop : α) (fs gs : List (List α × List α)) :
    frame sep stop (fs ++ gs) = frame sep stop fs ++ frame sep stop gs :=
  List.flatMap_append

/-- Two texts cut at their first stop letter. -/
theorem append_stop_inj {stop : α} {v w x y : List α} (hv : stop ∉ v) (hw : stop ∉ w)
    (h : v ++ stop :: x = w ++ stop :: y) : v = w ∧ x = y := by
  induction v generalizing w with
  | nil =>
    cases w with
    | nil => exact ⟨rfl, (List.cons.inj h).2⟩
    | cons b w =>
      have hb : stop = b := (List.cons.inj h).1
      exact absurd (by rw [hb]; exact List.mem_cons_self) hw
  | cons a v ih =>
    cases w with
    | nil =>
      have ha : a = stop := (List.cons.inj h).1
      exact absurd (by rw [ha]; exact List.mem_cons_self) hv
    | cons b w =>
      obtain ⟨rfl, h'⟩ := List.cons.inj h
      rw [List.mem_cons, not_or] at hv hw
      obtain ⟨rfl, rfl⟩ := ih hv.2 hw.2 h'
      exact ⟨rfl, rfl⟩

/-- **Decoding.**  Records with the same keys and stop-free values are read back
from their frame, whatever follows it.  Each entry of `fs` is a key with the
values it has on the two sides. -/
theorem frame_append_inj (sep stop : α) (fs : List (List α × List α × List α)) {x y : List α}
    (hv : ∀ f ∈ fs, stop ∉ f.2.1 ∧ stop ∉ f.2.2)
    (h : frame sep stop (fs.map fun f => (f.1, f.2.1)) ++ x =
      frame sep stop (fs.map fun f => (f.1, f.2.2)) ++ y) :
    (∀ f ∈ fs, f.2.1 = f.2.2) ∧ x = y := by
  induction fs with
  | nil => exact ⟨fun f hf => (by cases hf), h⟩
  | cons f fs ih =>
    have hf := hv f List.mem_cons_self
    simp only [List.map_cons, frame_cons, record, List.append_assoc, List.cons_append,
      List.append_cancel_left_eq, List.cons.injEq, true_and, List.nil_append] at h
    obtain ⟨hval, hrest⟩ := append_stop_inj hf.1 hf.2 h
    obtain ⟨hall, hxy⟩ := ih (fun g hg => hv g (List.mem_cons_of_mem _ hg)) hrest
    refine ⟨fun g hg => ?_, hxy⟩
    rcases List.mem_cons.1 hg with rfl | hg
    · exact hval
    · exact hall g hg

/-- **Decoding, keys unknown.**  No key holds the separator, no value the stop letter. -/
theorem frame_inj {sep stop : α} {fs gs : List (List α × List α)}
    (hf : ∀ f ∈ fs, sep ∉ f.1 ∧ stop ∉ f.2) (hg : ∀ g ∈ gs, sep ∉ g.1 ∧ stop ∉ g.2)
    (h : frame sep stop fs = frame sep stop gs) : fs = gs := by
  induction fs generalizing gs with
  | nil =>
    cases gs with
    | nil => rfl
    | cons g gs => simp [record] at h
  | cons f fs ih =>
    cases gs with
    | nil => simp [record] at h
    | cons g gs =>
      obtain ⟨hfkey, hfval⟩ := hf f List.mem_cons_self
      obtain ⟨hgkey, hgval⟩ := hg g List.mem_cons_self
      simp only [frame_cons, record, List.append_assoc, List.cons_append, List.nil_append] at h
      obtain ⟨hkey, h⟩ := append_stop_inj hfkey hgkey h
      obtain ⟨hval, h⟩ := append_stop_inj hfval hgval h
      rw [Prod.ext hkey hval, ih (fun x hx => hf x (List.mem_cons_of_mem _ hx))
        (fun x hx => hg x (List.mem_cons_of_mem _ hx)) h]

/-! ## What cannot be read back -/

/-- Several records are the text of one, under the first key. -/
theorem frame_eq_record (sep stop : α) (f : List α × List α) (fs : List (List α × List α)) :
    ∃ v, frame sep stop (f :: fs) = record sep stop (f.1, v) := by
  induction fs generalizing f with
  | nil => exact ⟨f.2, by simp⟩
  | cons g fs ih =>
    obtain ⟨v, hv⟩ := ih g
    refine ⟨f.2 ++ stop :: (g.1 ++ sep :: v), ?_⟩
    rw [frame_cons, hv]
    simp [record]

theorem count_record [DecidableEq α] {sep stop : α} (hne : stop ≠ sep) (f : List α × List α) :
    (record sep stop f).count sep = f.1.count sep + f.2.count sep + 1 := by
  simp only [record, List.count_append, List.count_cons_self, List.count_singleton, beq_iff_eq,
    if_neg hne]
  omega

/-- Each record has a separator of its own. -/
theorem length_le_count [DecidableEq α] {sep stop : α} (hne : stop ≠ sep)
    (fs : List (List α × List α)) : fs.length ≤ (frame sep stop fs).count sep := by
  induction fs with
  | nil => exact Nat.zero_le _
  | cons f fs ih =>
    rw [frame_cons, List.count_append, count_record hne, List.length_cons]
    omega

/-! ## Sorted records -/

theorem flatMap_commute {β : Type} (text : β → List α) (a : β) (bs : List β)
    (h : ∀ b ∈ bs, text b ++ text a = text a ++ text b) :
    bs.flatMap text ++ text a = text a ++ bs.flatMap text := by
  induction bs with
  | nil => simp
  | cons b bs ih =>
    have hrest := ih fun x hx => h x (List.mem_cons_of_mem _ hx)
    rw [List.flatMap_cons, List.append_assoc, hrest, ← List.append_assoc,
      h b List.mem_cons_self, List.append_assoc]

/-- **Ties that commute.**  Two sorted lists of the same elements have one text, if
elements that are tied may change places. -/
theorem flatMap_eq_of_sorted {β : Type} {le : β → β → Prop} (text : β → List α) {xs ys : List β}
    (hperm : xs.Perm ys) (hx : xs.Pairwise le) (hy : ys.Pairwise le)
    (hc : ∀ x ∈ xs, ∀ y ∈ xs, le x y → le y x → text x ++ text y = text y ++ text x) :
    xs.flatMap text = ys.flatMap text := by
  induction xs generalizing ys with
  | nil => rw [hperm.nil_eq]
  | cons a xs ih =>
    obtain ⟨before, after, rfl⟩ := List.append_of_mem (hperm.mem_iff.1 List.mem_cons_self)
    have hrest : xs.Perm (before ++ after) := (hperm.trans List.perm_middle).cons_inv
    rw [List.pairwise_cons] at hx
    -- what comes before the least element on the other side is tied with it
    have htied : ∀ b ∈ before, text b ++ text a = text a ++ text b := by
      intro b hb
      have hba : le b a := (List.pairwise_append.1 hy).2.2 b hb a List.mem_cons_self
      have hmem : b ∈ xs := hrest.mem_iff.2 (List.mem_append_left _ hb)
      exact hc b (List.mem_cons_of_mem _ hmem) a List.mem_cons_self hba (hx.1 b hmem)
    have hsorted : (before ++ after).Pairwise le :=
      hy.sublist ((List.Sublist.refl before).append (List.sublist_cons_self a after))
    have htail := ih hrest hx.2 hsorted fun x hxm y hym =>
      hc x (List.mem_cons_of_mem _ hxm) y (List.mem_cons_of_mem _ hym)
    rw [List.flatMap_cons, htail, List.flatMap_append, List.flatMap_append, List.flatMap_cons,
      ← List.append_assoc, ← List.append_assoc, flatMap_commute text a before htied]

end Framing
