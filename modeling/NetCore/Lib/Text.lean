import Mathlib.Algebra.GroupWithZero.Nat
import Mathlib.Data.List.Infix

/-!
# Texts addressed by UTF-8 byte offsets

A text is a list of characters; an offset counts UTF-8 bytes, as string
slices do.  A slice whose offset is out of range or inside a character does
not exist (`none`).

* `findStr pat s`, `findChar p s`: offset of the first occurrence.
* `sliceFrom s i`, `sliceTo s i`: the text from, and before, offset `i`.

A pattern whose first letter does not come again in it (`Plain`) cannot overlap
itself, so it is found after a text without it exactly at that text's end
(`findStr_append`).  A search, then a slice at the offset found, are together a
split of the list (`findStr_split`, `findChar_split`, `sliceFrom_append`,
`sliceTo_append`): the facts a scanner's proof needs, with no arithmetic left.
-/

namespace Text

def utf8Len (s : List Char) : Nat := (s.map Char.utf8Size).sum

@[simp] theorem utf8Len_nil : utf8Len [] = 0 := rfl

@[simp] theorem utf8Len_cons (c : Char) (s : List Char) :
    utf8Len (c :: s) = c.utf8Size + utf8Len s := by
  simp [utf8Len]

@[simp] theorem utf8Len_append (s t : List Char) : utf8Len (s ++ t) = utf8Len s + utf8Len t := by
  simp [utf8Len]

/-! ## Slices -/

/-- The text from byte offset `i` on. -/
def sliceFrom : List Char → Nat → Option (List Char)
  | s, 0 => some s
  | [], _ + 1 => none
  | c :: s, i + 1 => if c.utf8Size ≤ i + 1 then sliceFrom s (i + 1 - c.utf8Size) else none

/-- The text before byte offset `i`. -/
def sliceTo : List Char → Nat → Option (List Char)
  | _, 0 => some []
  | [], _ + 1 => none
  | c :: s, i + 1 =>
    if c.utf8Size ≤ i + 1 then (sliceTo s (i + 1 - c.utf8Size)).map (c :: ·) else none

theorem sliceFrom_append (u w : List Char) : sliceFrom (u ++ w) (utf8Len u) = some w := by
  induction u with
  | nil => cases w <;> rfl
  | cons c u ih =>
    have hc := c.utf8Size_pos
    obtain ⟨n, hn⟩ : ∃ n, utf8Len (c :: u) = n + 1 := ⟨utf8Len (c :: u) - 1, by simp; omega⟩
    rw [hn, List.cons_append, sliceFrom, ← hn, if_pos (by simp)]
    rw [show utf8Len (c :: u) - c.utf8Size = utf8Len u by simp]
    exact ih

theorem sliceTo_append (u w : List Char) : sliceTo (u ++ w) (utf8Len u) = some u := by
  induction u with
  | nil => cases w <;> rfl
  | cons c u ih =>
    have hc := c.utf8Size_pos
    obtain ⟨n, hn⟩ : ∃ n, utf8Len (c :: u) = n + 1 := ⟨utf8Len (c :: u) - 1, by simp; omega⟩
    rw [hn, List.cons_append, sliceTo, ← hn, if_pos (by simp)]
    rw [show utf8Len (c :: u) - c.utf8Size = utf8Len u by simp, ih]
    rfl

/-! ## Searches -/

/-- Byte offset of the first character that passes `p`. -/
def findChar (p : Char → Bool) : List Char → Option Nat
  | [] => none
  | c :: s => if p c then some 0 else (findChar p s).map (c.utf8Size + ·)

/-- Byte offset of the first occurrence of `pat`. -/
def findStr (pat : List Char) : List Char → Option Nat
  | [] => if pat.isEmpty then some 0 else none
  | c :: s => if pat.isPrefixOf (c :: s) then some 0 else (findStr pat s).map (c.utf8Size + ·)

theorem findChar_none {p : Char → Bool} {s : List Char} (h : ∀ c ∈ s, p c = false) :
    findChar p s = none := by
  induction s with
  | nil => rfl
  | cons c s ih =>
    rw [findChar, h c List.mem_cons_self, ih (fun x hx => h x (List.mem_cons_of_mem _ hx))]
    rfl

theorem findChar_append {p : Char → Bool} {u : List Char} {c : Char} (w : List Char)
    (hu : ∀ x ∈ u, p x = false) (hc : p c = true) :
    findChar p (u ++ c :: w) = some (utf8Len u) := by
  induction u with
  | nil => simp [findChar, hc]
  | cons x u ih =>
    rw [List.cons_append, findChar, hu x List.mem_cons_self,
      ih (fun y hy => hu y (List.mem_cons_of_mem _ hy))]
    simp

/-- A text has no character that passes `p`, or splits at the first one. -/
theorem findChar_split (p : Char → Bool) (s : List Char) :
    (∀ c ∈ s, p c = false) ∨
      ∃ u c w, s = u ++ c :: w ∧ (∀ x ∈ u, p x = false) ∧ p c = true := by
  induction s with
  | nil => exact Or.inl (fun c hc => by cases hc)
  | cons c s ih =>
    cases hc : p c
    · rcases ih with h | ⟨u, d, w, rfl, hu, hd⟩
      · refine Or.inl (fun x hx => ?_)
        rcases List.mem_cons.1 hx with rfl | hx
        · exact hc
        · exact h x hx
      · refine Or.inr ⟨c :: u, d, w, rfl, fun x hx => ?_, hd⟩
        rcases List.mem_cons.1 hx with rfl | hx
        · exact hc
        · exact hu x hx
    · exact Or.inr ⟨[], c, s, rfl, fun x hx => (by cases hx), hc⟩

/-- The first letter of the pattern does not come again in it. -/
def Plain : List Char → Prop
  | [] => False
  | c :: t => c ∉ t

/-- A plain pattern starts nowhere inside `u` when `u` does not contain it,
not even where it would run past the end of `u` into another copy. -/
theorem not_prefix_append {pat u w : List Char} (hp : Plain pat) (hne : u ≠ [])
    (hu : ¬ pat <:+: u) : ¬ pat <+: u ++ (pat ++ w) := by
  intro h
  rcases Nat.lt_or_ge u.length pat.length with hlt | hge
  · -- `u` is then a proper prefix of the pattern, and the next letter starts it again
    obtain ⟨v, rfl⟩ : u <+: pat :=
      List.prefix_of_prefix_length_le (List.prefix_append u (pat ++ w)) h (by omega)
    cases u with
    | nil => exact hne rfl
    | cons c u =>
      cases v with
      | nil => simp at hlt
      | cons d v =>
        rw [List.prefix_append_right_inj, List.append_assoc, List.cons_append,
          List.cons_append, List.cons_prefix_cons] at h
        have hd : d = c := h.1
        exact hp (by rw [← hd]; simp)
  · have hpu : pat <+: u := List.prefix_of_prefix_length_le h (List.prefix_append u _) hge
    exact hu hpu.isInfix

/-- A text is not found across a character it does not hold. -/
theorem not_infix_separated {pat u w : List Char} {c : Char} (hc : c ∉ pat) (hu : ¬ pat <:+: u)
    (hw : ¬ pat <:+: w) : ¬ pat <:+: u ++ c :: w := by
  induction u with
  | nil =>
    rw [List.nil_append, List.infix_cons_iff, List.prefix_cons_iff]
    rintro ((rfl | ⟨rest, rfl, -⟩) | h)
    · exact hw List.nil_infix
    · exact hc List.mem_cons_self
    · exact hw h
  | cons d u ih =>
    rw [List.cons_append, List.infix_cons_iff]
    rintro (h | h)
    · by_cases hlen : pat.length ≤ (d :: u).length
      · exact hu (List.prefix_of_prefix_length_le h (List.prefix_append _ _) hlen).isInfix
      · -- the pattern runs over the separator
        have hpre : d :: (u ++ [c]) <+: d :: (u ++ c :: w) := ⟨w, by simp⟩
        have hlong : (d :: (u ++ [c])).length ≤ pat.length := by
          simp only [List.length_cons, List.length_append, List.length_nil] at hlen ⊢
          omega
        exact hc ((List.prefix_of_prefix_length_le hpre h hlong).subset (by simp))
    · exact ih (fun hfound => hu (hfound.trans (List.suffix_cons d u).isInfix)) h

theorem findStr_append {pat u : List Char} (w : List Char) (hp : Plain pat) (hu : ¬ pat <:+: u) :
    findStr pat (u ++ (pat ++ w)) = some (utf8Len u) := by
  induction u with
  | nil =>
    cases pat with
    | nil => exact absurd hp (by simp [Plain])
    | cons c t => simp [findStr]
  | cons c u ih =>
    have hpre := not_prefix_append (w := w) hp (List.cons_ne_nil c u) hu
    rw [← List.isPrefixOf_iff_prefix, List.cons_append] at hpre
    rw [List.cons_append, findStr, if_neg hpre,
      ih (fun h => hu (h.trans (List.suffix_cons c u).isInfix))]
    simp

theorem findStr_none {pat s : List Char} (hp : pat ≠ []) (hs : ¬ pat <:+: s) :
    findStr pat s = none := by
  induction s with
  | nil => simp [findStr, hp]
  | cons c s ih =>
    have hpre : ¬ (pat.isPrefixOf (c :: s)) = true := fun h =>
      hs (List.isPrefixOf_iff_prefix.1 h).isInfix
    rw [findStr, if_neg hpre, ih (fun h => hs (h.trans (List.suffix_cons c s).isInfix))]
    rfl

/-- A text does not contain the pattern, or splits at its first occurrence. -/
theorem findStr_split (pat s : List Char) (hp : Plain pat) :
    ¬ pat <:+: s ∨ ∃ u w, s = u ++ (pat ++ w) ∧ ¬ pat <:+: u := by
  induction s with
  | nil =>
    refine Or.inl (fun h => ?_)
    rw [List.infix_nil] at h
    subst h
    exact hp
  | cons c s ih =>
    by_cases hpre : pat <+: c :: s
    · obtain ⟨w, hw⟩ := hpre
      refine Or.inr ⟨[], w, hw.symm, fun h => ?_⟩
      rw [List.infix_nil] at h
      subst h
      exact hp
    · rcases ih with h | ⟨u, w, rfl, hu⟩
      · refine Or.inl (fun hi => ?_)
        rcases List.infix_cons_iff.1 hi with h' | h'
        · exact hpre h'
        · exact h h'
      · refine Or.inr ⟨c :: u, w, rfl, fun hi => ?_⟩
        rcases List.infix_cons_iff.1 hi with h' | h'
        · exact hpre (h'.trans (List.prefix_append (c :: u) _))
        · exact hu h'

/-! ## Cuts and cases -/

/-- The text before and after the first `c`, if there is one. -/
def splitOnce (c : Char) : List Char → Option (List Char × List Char)
  | [] => none
  | d :: s => if d = c then some ([], s) else (splitOnce c s).map fun x => (d :: x.1, x.2)

theorem splitOnce_none {c : Char} {s : List Char} (h : c ∉ s) : splitOnce c s = none := by
  induction s with
  | nil => rfl
  | cons d s ih =>
    rw [List.mem_cons, not_or] at h
    rw [splitOnce, if_neg (fun e => h.1 e.symm), ih h.2]
    rfl

theorem splitOnce_append {c : Char} {u : List Char} (w : List Char) (h : c ∉ u) :
    splitOnce c (u ++ c :: w) = some (u, w) := by
  induction u with
  | nil => simp [splitOnce]
  | cons d u ih =>
    rw [List.mem_cons, not_or] at h
    rw [List.cons_append, splitOnce, if_neg (fun e => h.1 e.symm), ih h.2]
    rfl

/-- The Unicode `White_Space` property. -/
def isWhitespace (c : Char) : Bool :=
  (9 ≤ c.toNat && c.toNat ≤ 13) || c.toNat == 0x20 || c.toNat == 0x85 || c.toNat == 0xA0 ||
  c.toNat == 0x1680 || (0x2000 ≤ c.toNat && c.toNat ≤ 0x200A) || c.toNat == 0x2028 ||
  c.toNat == 0x2029 || c.toNat == 0x202F || c.toNat == 0x205F || c.toNat == 0x3000

def trim (s : List Char) : List Char :=
  ((s.dropWhile isWhitespace).reverse.dropWhile isWhitespace).reverse

def toAsciiLowercase (s : String) : String := String.ofList (s.toList.map Char.toLower)

/-! ## White space and cases -/

theorem isWhitespace_of_alphanum {c : Char} (h : c.isAlphanum = true) : isWhitespace c = false := by
  have hcode : ((65 ≤ c.toNat ∧ c.toNat ≤ 90) ∨ (97 ≤ c.toNat ∧ c.toNat ≤ 122)) ∨
      (48 ≤ c.toNat ∧ c.toNat ≤ 57) := by
    rcases Bool.or_eq_true_iff.1 h with halpha | hdigit
    · rcases Bool.or_eq_true_iff.1 halpha with hupper | hlower
      · exact Or.inl (Or.inl (of_decide_eq_true hupper))
      · obtain ⟨hge, hle⟩ := Bool.and_eq_true_iff.1 hlower
        exact Or.inl (Or.inr ⟨of_decide_eq_true hge, of_decide_eq_true hle⟩)
    · obtain ⟨hge, hle⟩ := Bool.and_eq_true_iff.1 hdigit
      exact Or.inr ⟨of_decide_eq_true hge, of_decide_eq_true hle⟩
  rw [← Bool.not_eq_true]
  intro hw
  simp only [isWhitespace, Bool.or_eq_true, Bool.and_eq_true, decide_eq_true_eq, beq_iff_eq] at hw
  omega

theorem toLower_of_whitespace {c : Char} (h : isWhitespace c = true) : c.toLower = c := by
  have hnot : ¬ (c.val ≥ 'A'.val ∧ c.val ≤ 'Z'.val) := by
    rintro ⟨hge, hle⟩
    have hge' : 65 ≤ c.toNat := hge
    have hle' : c.toNat ≤ 90 := hle
    simp only [isWhitespace, Bool.or_eq_true, Bool.and_eq_true, decide_eq_true_eq, beq_iff_eq] at h
    omega
  exact dif_neg hnot

theorem dropWhile_token {s : List Char} (h : ∀ c ∈ s, isWhitespace c = false) (t : List Char)
    (hs : s ≠ []) : (s ++ t).dropWhile isWhitespace = s ++ t := by
  obtain ⟨c, s', rfl⟩ := List.exists_cons_of_ne_nil hs
  rw [List.cons_append, List.dropWhile_cons_of_neg (by rw [h c List.mem_cons_self]; decide)]

/-- `trim` leaves of a padded word the word. -/
theorem trim_padded {pre s post : List Char} (hpre : ∀ c ∈ pre, isWhitespace c = true)
    (h : ∀ c ∈ s, isWhitespace c = false) (hpost : ∀ c ∈ post, isWhitespace c = true) :
    trim (pre ++ (s ++ post)) = s := by
  unfold trim
  rw [List.dropWhile_append_of_pos hpre]
  by_cases hs : s = []
  · have hnone : (post ++ []).dropWhile isWhitespace = [] := List.dropWhile_append_of_pos hpost
    rw [List.append_nil] at hnone
    rw [hs, List.nil_append, hnone]
    rfl
  · have hrev : s.reverse ≠ [] := fun e => hs (List.reverse_eq_nil_iff.1 e)
    have hpost' : ∀ c ∈ post.reverse, isWhitespace c = true :=
      fun c hc => hpost c (List.mem_reverse.1 hc)
    have htoken := dropWhile_token (fun c hc => h c (List.mem_reverse.1 hc)) [] hrev
    rw [List.append_nil] at htoken
    rw [dropWhile_token h post hs, List.reverse_append, List.dropWhile_append_of_pos hpost', htoken,
      List.reverse_reverse]

/-- `trim` leaves a text without white space as it is. -/
theorem trim_of_token {s : List Char} (h : ∀ c ∈ s, isWhitespace c = false) : trim s = s := by
  have htrim := @trim_padded [] s [] nofun h nofun
  rwa [List.nil_append, List.append_nil] at htrim

/-- A word without white space. -/
def isToken (s : String) : Bool := s.toList.all fun c => !isWhitespace c

/-- A spelling of a word without white space holds none. -/
theorem token_of_lower {s t : String} (h : toAsciiLowercase s = t) (ht : isToken t = true) :
    ∀ c ∈ s.toList, isWhitespace c = false := by
  subst h
  rw [isToken, toAsciiLowercase, String.toList_ofList, List.all_eq_true] at ht
  intro c hc
  cases hw : isWhitespace c with
  | false => rfl
  | true =>
    have hlower := ht _ (List.mem_map_of_mem hc)
    rw [toLower_of_whitespace hw, hw] at hlower
    cases hlower

/-- A text is determined by its bytes. -/
theorem utf8Bytes_inj {s t : String} (h : s.toUTF8.data.toList = t.toUTF8.data.toList) : s = t := by
  have hdata : s.toUTF8.data = t.toUTF8.data := Array.toList_inj.1 h
  exact String.toByteArray_inj.1 (ByteArray.ext hdata)

end Text
