import Mathlib.Data.List.Basic

/-!
# Records with optional fields

A record is written as the fields that are present.  If no two fields share a
name, looking up the name of a field gives its value, or nothing where it was
left out (`lookup_present`).
-/

namespace Record

variable {κ ν : Type}

/-- The fields that have a value. -/
def present (fields : List (κ × Option ν)) : List (κ × ν) :=
  fields.filterMap fun f => f.2.map fun v => (f.1, v)

theorem present_cons (f : κ × Option ν) (fields : List (κ × Option ν)) :
    present (f :: fields) = (f.2.map fun v => (f.1, v)).toList ++ present fields := by
  obtain ⟨k, v⟩ := f
  cases v with
  | none => rfl
  | some v => rfl

/-- The names that are present are names of fields. -/
theorem names_present (fields : List (κ × Option ν)) :
    List.Sublist ((present fields).map Prod.fst) (fields.map Prod.fst) := by
  induction fields with
  | nil => exact List.Sublist.slnil
  | cons f fields ih =>
    rw [present_cons, List.map_append, List.map_cons]
    obtain ⟨k, v⟩ := f
    cases v with
    | none => exact ih.cons k
    | some v => exact ih.cons_cons k

variable [BEq κ] [LawfulBEq κ]

theorem lookup_eq_none {fields : List (κ × ν)} {k : κ} (h : k ∉ fields.map Prod.fst) :
    fields.lookup k = none := by
  rw [List.lookup_eq_none_iff]
  intro f hf
  rw [bne_iff_ne]
  rintro rfl
  exact h (List.mem_map.2 ⟨f, hf, rfl⟩)

/-- **Looking a field up.** -/
theorem lookup_present {fields : List (κ × Option ν)} (hnames : (fields.map Prod.fst).Nodup)
    {k : κ} {v : Option ν} (h : (k, v) ∈ fields) : (present fields).lookup k = v := by
  induction fields with
  | nil => cases h
  | cons f fields ih =>
    rw [List.map_cons, List.nodup_cons] at hnames
    rw [present_cons]
    rcases List.mem_cons.1 h with rfl | hrest
    · cases v with
      | some v => exact List.lookup_cons_self
      | none =>
        apply lookup_eq_none
        intro hk
        exact hnames.1 ((names_present fields).subset hk)
    · have hne : k ≠ f.1 := by
        rintro rfl
        exact hnames.1 (List.mem_map.2 ⟨_, hrest, rfl⟩)
      obtain ⟨name, value⟩ := f
      cases value with
      | none => exact ih hnames.2 hrest
      | some value =>
        show List.lookup k ((name, value) :: present fields) = v
        rw [List.lookup_cons, beq_false_of_ne hne]
        exact ih hnames.2 hrest

end Record
