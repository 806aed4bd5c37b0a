import Mathlib.Data.List.Basic

/-!
# Lossy UTF-8

`fromUtf8Lossy` decodes any bytes: each maximal prefix of a well-formed sequence
that goes wrong, and each byte that starts none, becomes one U+FFFD.  It is a
machine that reads a byte at a time: `Pending` is the part of a sequence read so
far, with the range its next byte must lie in.

Cutting the bytes cuts the text too, or leaves a U+FFFD at the cut
(`fromUtf8Lossy_append`).  The encoding of a text reads back as the text
(`fromUtf8Lossy_encode`), and cut at any byte as the characters that fit, with a
U+FFFD if the cut falls inside one (`fromUtf8Lossy_take`).  Any other bytes leave
a U+FFFD somewhere: without one the text stands for the bytes
(`encode_fromUtf8Lossy`).  It takes three times their room at most
(`fromUtf8Lossy_size`).
-/

namespace Utf8

/-- `need code lo hi more`: the bytes so far give `code`, the next one must lie
between `lo` and `hi`, and `more` follow it. -/
inductive Pending
  | idle
  | need (code : Nat) (lo hi : UInt8) (more : Nat)
deriving DecidableEq, Repr

def replacement : Char := Char.ofNat 0xFFFD

/-- A byte where no sequence is open. -/
def start (b : UInt8) : Pending × List Char :=
  if b < 0x80 then (.idle, [Char.ofNat b.toNat])
  else if 0xC2 ≤ b ∧ b ≤ 0xDF then (.need (b.toNat % 0x20) 0x80 0xBF 0, [])
  else if b = 0xE0 then (.need 0 0xA0 0xBF 1, [])
  else if b = 0xED then (.need 0xD 0x80 0x9F 1, [])
  else if 0xE1 ≤ b ∧ b ≤ 0xEF then (.need (b.toNat % 0x10) 0x80 0xBF 1, [])
  else if b = 0xF0 then (.need 0 0x90 0xBF 2, [])
  else if 0xF1 ≤ b ∧ b ≤ 0xF3 then (.need (b.toNat % 0x8) 0x80 0xBF 2, [])
  else if b = 0xF4 then (.need 4 0x80 0x8F 2, [])
  else (.idle, [replacement])

def feed : Pending → UInt8 → Pending × List Char
  | .idle, b => start b
  | .need code lo hi more, b =>
    if lo ≤ b ∧ b ≤ hi then
      match more with
      | 0 => (.idle, [Char.ofNat (code * 0x40 + b.toNat % 0x40)])
      | more + 1 => (.need (code * 0x40 + b.toNat % 0x40) 0x80 0xBF more, [])
    -- the sequence ends before this byte, which is read again
    else ((start b).1, replacement :: (start b).2)

def feedAll : Pending → List UInt8 → Pending × List Char
  | st, [] => (st, [])
  | st, b :: bs => ((feedAll (feed st b).1 bs).1, (feed st b).2 ++ (feedAll (feed st b).1 bs).2)

/-- What an open sequence becomes at the end of the bytes. -/
def flush : Pending → List Char
  | .idle => []
  | .need _ _ _ _ => [replacement]

/-- `String::from_utf8_lossy`. -/
def fromUtf8Lossy (bytes : List UInt8) : List Char :=
  (feedAll .idle bytes).2 ++ flush (feedAll .idle bytes).1

theorem feedAll_append (st : Pending) (xs ys : List UInt8) :
    feedAll st (xs ++ ys) = ((feedAll (feedAll st xs).1 ys).1,
      (feedAll st xs).2 ++ (feedAll (feedAll st xs).1 ys).2) := by
  induction xs generalizing st with
  | nil => rfl
  | cons b xs ih =>
    simp only [List.cons_append, feedAll, ih, List.append_assoc]

/-- **Cutting.**  The text of some of the bytes is cut from the text of all of
them, or ends in U+FFFD. -/
theorem fromUtf8Lossy_append (xs ys : List UInt8) :
    fromUtf8Lossy (xs ++ ys) = fromUtf8Lossy xs ++ fromUtf8Lossy ys ∨
      ∃ text, fromUtf8Lossy xs = text ++ [replacement] := by
  cases hst : (feedAll .idle xs).1 with
  | idle =>
    left
    unfold fromUtf8Lossy
    rw [feedAll_append, hst]
    show _ = (feedAll .idle xs).2 ++ [] ++ _
    rw [List.append_nil, List.append_assoc]
  | need code lo hi more =>
    right
    refine ⟨(feedAll .idle xs).2, ?_⟩
    unfold fromUtf8Lossy
    rw [hst]
    rfl

/-! ## Encoding -/

/-- `str::as_bytes`. -/
def encode (text : List Char) : List UInt8 := text.flatMap String.utf8EncodeChar

@[simp] theorem encode_nil : encode [] = [] := rfl

@[simp] theorem encode_cons (c : Char) (text : List Char) :
    encode (c :: text) = String.utf8EncodeChar c ++ encode text := rfl

theorem encode_append (s t : List Char) : encode (s ++ t) = encode s ++ encode t :=
  List.flatMap_append

/-- From `st`, the bytes give nothing before the last one, and `c` there. -/
inductive Reads : Pending → List UInt8 → Char → Prop
  | last {st b c} : feed st b = (.idle, [c]) → Reads st [b] c
  | more {st b code lo hi more bs c} : feed st b = (.need code lo hi more, []) →
      Reads (.need code lo hi more) bs c → Reads st (b :: bs) c

theorem Reads.feedAll_eq {st : Pending} {bs : List UInt8} {c : Char} (h : Reads st bs c) :
    feedAll st bs = (.idle, [c]) := by
  induction h with
  | last hb => simp only [feedAll, hb, List.append_nil]
  | more hb _ ih => simp only [feedAll, hb, ih, List.nil_append]

/-- Cut inside, the bytes leave a sequence open, and no text. -/
theorem Reads.cut {st : Pending} {bs : List UInt8} {c : Char} (h : Reads st bs c) {n : Nat}
    (hpos : 0 < n) (hn : n < bs.length) :
    ∃ code lo hi more, feedAll st (bs.take n) = (.need code lo hi more, []) := by
  induction h generalizing n with
  | last hb =>
    rw [List.length_singleton] at hn
    omega
  | @more st b code lo hi more bs c hb hbs ih =>
    obtain ⟨n, rfl⟩ : ∃ m, n = m + 1 := ⟨n - 1, by omega⟩
    rw [List.take_succ_cons, feedAll, hb]
    rw [List.length_cons] at hn
    by_cases hzero : n = 0
    · subst hzero
      exact ⟨code, lo, hi, more, rfl⟩
    · obtain ⟨code, lo, hi, more, hcut⟩ := ih (n := n) (by omega) (by omega)
      exact ⟨code, lo, hi, more, by rw [hcut]; rfl⟩

/-! The bytes of an encoding, as numbers. -/

theorem start_two : ∀ u < 0x20, 2 ≤ u →
    start (UInt8.ofNat (u + 0xC0)) = (.need u 0x80 0xBF 0, []) := by
  decide

theorem start_three : ∀ u < 0x10, start (UInt8.ofNat (u + 0xE0)) =
    (.need u (if u = 0 then 0xA0 else 0x80) (if u = 0xD then 0x9F else 0xBF) 1, []) := by
  decide

theorem start_four : ∀ u < 5, start (UInt8.ofNat (u + 0xF0)) =
    (.need u (if u = 0 then 0x90 else 0x80) (if u = 4 then 0x8F else 0xBF) 2, []) := by
  decide

theorem start_one : ∀ u < 0x80, start (UInt8.ofNat u) = (.idle, [Char.ofNat u]) := by
  decide

/-- A byte that goes on with a sequence. -/
theorem tail_between {lo hi : UInt8} {t : Nat} (ht : t < 0x40) (hlo : lo.toNat ≤ t + 0x80)
    (hhi : t + 0x80 ≤ hi.toNat) :
    (lo ≤ UInt8.ofNat (t + 0x80) ∧ UInt8.ofNat (t + 0x80) ≤ hi) ∧
      (UInt8.ofNat (t + 0x80)).toNat % 0x40 = t := by
  have hb : (UInt8.ofNat (t + 0x80)).toNat = t + 0x80 := by
    rw [UInt8.toNat_ofNat']
    omega
  rw [UInt8.le_iff_toNat_le, UInt8.le_iff_toNat_le, hb]
  exact ⟨⟨hlo, hhi⟩, by omega⟩

theorem Reads.tail {code more t : Nat} {lo hi : UInt8} {bs : List UInt8} {c : Char}
    (h : Reads (.need (code * 0x40 + t) 0x80 0xBF more) bs c) (ht : t < 0x40)
    (hlo : lo.toNat ≤ t + 0x80) (hhi : t + 0x80 ≤ hi.toNat) :
    Reads (.need code lo hi (more + 1)) (UInt8.ofNat (t + 0x80) :: bs) c := by
  obtain ⟨hin, hmod⟩ := tail_between ht hlo hhi
  refine .more ?_ h
  rw [feed, if_pos hin, hmod]

theorem Reads.lastTail {code t : Nat} {c : Char} (h : Char.ofNat (code * 0x40 + t) = c)
    (ht : t < 0x40) : Reads (.need code 0x80 0xBF 0) [UInt8.ofNat (t + 0x80)] c := by
  have hlo : (0x80 : UInt8).toNat ≤ t + 0x80 := by simp
  have hhi : t + 0x80 ≤ (0xBF : UInt8).toNat := by
    simp only [UInt8.reduceToNat]
    omega
  obtain ⟨hin, hmod⟩ := tail_between ht hlo hhi
  refine .last ?_
  rw [feed, if_pos hin, hmod, h]

/-- A character's encoding is read as the character. -/
theorem reads_char (c : Char) : Reads .idle (String.utf8EncodeChar c) c := by
  have hchar : Char.ofNat c.val.toNat = c := Char.ofNat_toNat c
  have hvalid : c.val.toNat < 0xD800 ∨ (0xDFFF < c.val.toNat ∧ c.val.toNat < 0x110000) := c.valid
  unfold String.utf8EncodeChar
  generalize c.val.toNat = v at hchar hvalid
  dsimp only
  by_cases h1 : v ≤ 0x7F
  · rw [if_pos h1]
    exact .last (by rw [feed, start_one v (by omega), hchar])
  · rw [if_neg h1]
    by_cases h2 : v ≤ 0x7FF
    · rw [if_pos h2]
      have hlast : Char.ofNat (v / 64 % 0x20 * 0x40 + v % 0x40) = c := by
        rw [← hchar]
        congr 1
        omega
      exact .more (start_two (v / 64 % 0x20) (by omega) (by omega)) (.lastTail hlast (by omega))
    · rw [if_neg h2]
      by_cases h3 : v ≤ 0xFFFF
      · rw [if_pos h3]
        have hlast : Char.ofNat ((v / 4096 % 0x10 * 0x40 + v / 64 % 0x40) * 0x40 + v % 0x40) = c := by
          rw [← hchar]
          congr 1
          omega
        refine .more (start_three (v / 4096 % 0x10) (by omega))
          (.tail (.lastTail hlast (by omega)) (by omega) ?_ ?_)
        · -- no overlong form
          split
          · simp
            omega
          · simp
        · -- no surrogate
          split
          · simp
            omega
          · simp
            omega
      · rw [if_neg h3]
        have hlast : Char.ofNat (((v / 262144 % 0x08 * 0x40 + v / 4096 % 0x40) * 0x40 +
            v / 64 % 0x40) * 0x40 + v % 0x40) = c := by
          rw [← hchar]
          congr 1
          omega
        refine .more (start_four (v / 262144 % 0x08) (by omega))
          (.tail (.tail (.lastTail hlast (by omega)) (by omega) (by simp) (by simp; omega))
            (by omega) ?_ ?_)
        · -- no overlong form
          split
          · simp
            omega
          · simp
        · -- nothing beyond the last code
          split
          · simp
            omega
          · simp
            omega

/-- **Text round trip.** -/
theorem fromUtf8Lossy_encode_append (text : List Char) (bytes : List UInt8) :
    fromUtf8Lossy (encode text ++ bytes) = text ++ fromUtf8Lossy bytes := by
  induction text with
  | nil => rfl
  | cons c text ih =>
    have hc := (reads_char c).feedAll_eq
    unfold fromUtf8Lossy at ih ⊢
    rw [encode_cons, List.append_assoc, feedAll_append, hc]
    show [c] ++ _ ++ _ = _
    rw [List.append_assoc, ih]
    rfl

theorem fromUtf8Lossy_encode (text : List Char) : fromUtf8Lossy (encode text) = text := by
  have h := fromUtf8Lossy_encode_append text []
  rw [List.append_nil] at h
  rw [h]
  exact List.append_nil text

/-! ## Cutting an encoding -/

theorem length_encode_cons (c : Char) (text : List Char) :
    (encode (c :: text)).length = c.utf8Size + (encode text).length := by
  rw [encode_cons, List.length_append, String.length_utf8EncodeChar]

theorem length_encode_ascii {text : List Char} (h : ∀ c ∈ text, c.toNat < 128) :
    (encode text).length = text.length := by
  induction text with
  | nil => rfl
  | cons c text ih =>
    have hsize : c.utf8Size = 1 := by
      have hlt := h c List.mem_cons_self
      rw [Char.utf8Size, if_pos]
      exact UInt32.le_iff_toNat_le.2 (Nat.le_of_lt_succ hlt)
    rw [length_encode_cons, hsize, ih fun c hc => h c (List.mem_cons_of_mem _ hc), List.length_cons,
      Nat.add_comm]

/-- The first characters, as many as have their encoding in `n` bytes. -/
def fitting : Nat → List Char → List Char
  | _, [] => []
  | n, c :: text => if c.utf8Size ≤ n then c :: fitting (n - c.utf8Size) text else []

/-- The cut falls inside a character. -/
def CutsInside (n : Nat) (text : List Char) : Prop :=
  (encode (fitting n text)).length ≠ min n (encode text).length

instance (n : Nat) (text : List Char) : Decidable (CutsInside n text) :=
  inferInstanceAs (Decidable (_ ≠ _))

theorem cutsInside_cons {n : Nat} {c : Char} (hc : c.utf8Size ≤ n) (text : List Char) :
    CutsInside n (c :: text) ↔ CutsInside (n - c.utf8Size) text := by
  unfold CutsInside
  rw [fitting, if_pos hc, length_encode_cons, length_encode_cons]
  omega

/-- **The text of a cut encoding** is what fits, and a U+FFFD if the cut falls inside a
character. -/
theorem fromUtf8Lossy_take (n : Nat) (text : List Char) :
    fromUtf8Lossy ((encode text).take n) =
      fitting n text ++ if CutsInside n text then [replacement] else [] := by
  induction text generalizing n with
  | nil =>
    have hcut : ¬ CutsInside n [] := by
      unfold CutsInside
      simp [fitting]
    rw [encode_nil, List.take_nil, if_neg hcut]
    rfl
  | cons c text ih =>
    by_cases hc : c.utf8Size ≤ n
    · have htake : (encode (c :: text)).take n =
          encode [c] ++ (encode text).take (n - c.utf8Size) := by
        rw [encode_cons, List.take_append, String.length_utf8EncodeChar,
          List.take_of_length_le (by rw [String.length_utf8EncodeChar]; exact hc)]
        rw [encode_cons, encode_nil, List.append_nil]
      rw [htake, fromUtf8Lossy_encode_append, ih, fitting, if_pos hc]
      simp only [cutsInside_cons hc]
      rfl
    · -- only bytes of `c` are left of the cut
      have htake : (encode (c :: text)).take n = (String.utf8EncodeChar c).take n := by
        rw [encode_cons, List.take_append_of_le_length]
        rw [String.length_utf8EncodeChar]
        omega
      have hlen := length_encode_cons c text
      rw [htake, fitting, if_neg hc]
      by_cases hzero : n = 0
      · have hcut : ¬ CutsInside n (c :: text) := by
          unfold CutsInside
          rw [hzero, Nat.zero_min, fitting, if_neg (by omega)]
          simp
        subst hzero
        rw [if_neg hcut]
        rfl
      · have hcut : CutsInside n (c :: text) := by
          unfold CutsInside
          rw [fitting, if_neg hc, encode_nil, List.length_nil]
          omega
        obtain ⟨code, lo, hi, more, hopen⟩ := (reads_char c).cut (n := n) (by omega)
          (by rw [String.length_utf8EncodeChar]; omega)
        unfold fromUtf8Lossy
        rw [hopen, if_pos hcut]
        rfl

/-! ## What the text says about the bytes -/

/-- `pre` is what has been read of an open sequence: however it is completed within
its ranges, `pre` and the rest are the encoding of one character. -/
def Opened : Pending → List UInt8 → Prop
  | .idle, pre => pre = []
  | .need code lo hi more, pre => ∀ b bs, lo ≤ b → b ≤ hi → bs.length = more →
      (∀ x ∈ bs, 0x80 ≤ x ∧ x ≤ 0xBF) →
        String.utf8EncodeChar (Char.ofNat ((b :: bs).foldl (fun n x => n * 0x40 + x.toNat % 0x40)
          code)) = pre ++ b :: bs

theorem utf8EncodeChar_ofNat {v : Nat} (hv : v < 0xD800 ∨ (0xDFFF < v ∧ v < 0x110000)) :
    String.utf8EncodeChar (Char.ofNat v) =
      if v ≤ 0x7F then [UInt8.ofNat v]
      else if v ≤ 0x7FF then [UInt8.ofNat (v / 64 % 0x20 + 0xC0), UInt8.ofNat (v % 0x40 + 0x80)]
      else if v ≤ 0xFFFF then [UInt8.ofNat (v / 4096 % 0x10 + 0xE0),
        UInt8.ofNat (v / 64 % 0x40 + 0x80), UInt8.ofNat (v % 0x40 + 0x80)]
      else [UInt8.ofNat (v / 262144 % 0x08 + 0xF0), UInt8.ofNat (v / 4096 % 0x40 + 0x80),
        UInt8.ofNat (v / 64 % 0x40 + 0x80), UInt8.ofNat (v % 0x40 + 0x80)] := by
  have hval : (Char.ofNat v).val.toNat = v := by
    rw [Char.ofNat, dif_pos hv]
    rfl
  unfold String.utf8EncodeChar
  simp only [hval]

theorem utf8_two {u t : Nat} (hu : 2 ≤ u) (hu' : u < 0x20) (ht : t < 0x40) :
    String.utf8EncodeChar (Char.ofNat (u * 0x40 + t)) =
      [UInt8.ofNat (u + 0xC0), UInt8.ofNat (t + 0x80)] := by
  have hu1 : (u * 0x40 + t) / 64 % 0x20 = u := by omega
  have ht1 : (u * 0x40 + t) % 0x40 = t := by omega
  rw [utf8EncodeChar_ofNat (by omega), if_neg (by omega), if_pos (by omega), hu1, ht1]

theorem utf8_three {u t r : Nat} (hu : u < 0x10) (ht : t < 0x40) (hr : r < 0x40)
    (hlow : u = 0 → 0x20 ≤ t) (hsurrogate : u = 0xD → t < 0x20) :
    String.utf8EncodeChar (Char.ofNat ((u * 0x40 + t) * 0x40 + r)) =
      [UInt8.ofNat (u + 0xE0), UInt8.ofNat (t + 0x80), UInt8.ofNat (r + 0x80)] := by
  have hu1 : ((u * 0x40 + t) * 0x40 + r) / 4096 % 0x10 = u := by omega
  have ht1 : ((u * 0x40 + t) * 0x40 + r) / 64 % 0x40 = t := by omega
  have hr1 : ((u * 0x40 + t) * 0x40 + r) % 0x40 = r := by omega
  rw [utf8EncodeChar_ofNat (by omega), if_neg (by omega), if_neg (by omega), if_pos (by omega),
    hu1, ht1, hr1]

theorem utf8_four {u t r q : Nat} (hu : u < 5) (ht : t < 0x40) (hr : r < 0x40) (hq : q < 0x40)
    (hlow : u = 0 → 0x10 ≤ t) (hhigh : u = 4 → t < 0x10) :
    String.utf8EncodeChar (Char.ofNat (((u * 0x40 + t) * 0x40 + r) * 0x40 + q)) =
      [UInt8.ofNat (u + 0xF0), UInt8.ofNat (t + 0x80), UInt8.ofNat (r + 0x80),
        UInt8.ofNat (q + 0x80)] := by
  have hu1 : (((u * 0x40 + t) * 0x40 + r) * 0x40 + q) / 262144 % 0x08 = u := by omega
  have ht1 : (((u * 0x40 + t) * 0x40 + r) * 0x40 + q) / 4096 % 0x40 = t := by omega
  have hr1 : (((u * 0x40 + t) * 0x40 + r) * 0x40 + q) / 64 % 0x40 = r := by omega
  have hq1 : (((u * 0x40 + t) * 0x40 + r) * 0x40 + q) % 0x40 = q := by omega
  rw [utf8EncodeChar_ofNat (by omega), if_neg (by omega), if_neg (by omega), if_neg (by omega),
    hu1, ht1, hr1, hq1]

/-- A byte from its digit and its mark. -/
theorem ofNat_digit {b : UInt8} {n mark : Nat} (h : b.toNat % n + mark = b.toNat) :
    UInt8.ofNat (b.toNat % n + mark) = b := by
  rw [h, UInt8.ofNat_toNat]

theorem ofNat_tail {b : UInt8} (h : 0x80 ≤ b ∧ b ≤ 0xBF) :
    UInt8.ofNat (b.toNat % 0x40 + 0x80) = b := by
  simp only [UInt8.le_iff_toNat_le, UInt8.reduceToNat] at h
  exact ofNat_digit (by omega)

/-- Three bytes: the first has the digit `u`, the second lies in the range for it. -/
theorem opened_three {b lo hi : UInt8} {u : Nat} (hu : u < 0x10) (hb : UInt8.ofNat (u + 0xE0) = b)
    (hlo : 0x80 ≤ lo.toNat) (hhi : hi.toNat ≤ 0xBF) (hlow : u = 0 → 0xA0 ≤ lo.toNat)
    (hsurrogate : u = 0xD → hi.toNat ≤ 0x9F) : Opened (.need u lo hi 1) [b] := by
  intro b1 bs hlo1 hhi1 hlen htail
  obtain ⟨b2, rfl⟩ := List.length_eq_one_iff.1 hlen
  have hb2 := htail b2 List.mem_cons_self
  rw [UInt8.le_iff_toNat_le] at hlo1 hhi1
  have hb1 : UInt8.ofNat (b1.toNat % 0x40 + 0x80) = b1 := ofNat_digit (by omega)
  simp only [List.foldl_cons, List.foldl_nil]
  rw [utf8_three hu (by omega) (by omega) (by omega) (by omega), hb, hb1, ofNat_tail hb2]
  rfl

theorem opened_four {b lo hi : UInt8} {u : Nat} (hu : u < 5) (hb : UInt8.ofNat (u + 0xF0) = b)
    (hlo : 0x80 ≤ lo.toNat) (hhi : hi.toNat ≤ 0xBF) (hlow : u = 0 → 0x90 ≤ lo.toNat)
    (hhigh : u = 4 → hi.toNat ≤ 0x8F) : Opened (.need u lo hi 2) [b] := by
  intro b1 bs hlo1 hhi1 hlen htail
  obtain ⟨b2, b3, rfl⟩ := List.length_eq_two.1 hlen
  have hb2 := htail b2 List.mem_cons_self
  have hb3 := htail b3 (List.mem_cons_of_mem _ List.mem_cons_self)
  rw [UInt8.le_iff_toNat_le] at hlo1 hhi1
  have hb1 : UInt8.ofNat (b1.toNat % 0x40 + 0x80) = b1 := ofNat_digit (by omega)
  simp only [List.foldl_cons, List.foldl_nil]
  rw [utf8_four hu (by omega) (by omega) (by omega) (by omega) (by omega), hb, hb1,
    ofNat_tail hb2, ofNat_tail hb3]
  rfl

/-- A first byte is a character, or U+FFFD, or opens a sequence. -/
theorem start_cases (b : UInt8) :
    ((start b).1 = .idle ∧ (encode (start b).2 = [b] ∨ (start b).2 = [replacement])) ∨
      ((start b).2 = [] ∧ Opened (start b).1 [b]) := by
  unfold start
  simp only [UInt8.lt_iff_toNat_lt, UInt8.le_iff_toNat_le]
  by_cases h1 : b.toNat < (0x80 : UInt8).toNat
  · left
    rw [if_pos h1]
    simp only [UInt8.reduceToNat] at h1
    refine ⟨rfl, Or.inl ?_⟩
    rw [encode_cons, encode_nil, List.append_nil, utf8EncodeChar_ofNat (by omega), if_pos (by omega),
      UInt8.ofNat_toNat]
  rw [if_neg h1]
  by_cases h2 : (0xC2 : UInt8).toNat ≤ b.toNat ∧ b.toNat ≤ (0xDF : UInt8).toNat
  · right
    rw [if_pos h2]
    simp only [UInt8.reduceToNat] at h2
    refine ⟨rfl, ?_⟩
    intro b1 bs hlo hhi hlen _
    obtain rfl := List.length_eq_zero_iff.1 hlen
    have hb : UInt8.ofNat (b.toNat % 0x20 + 0xC0) = b := ofNat_digit (by omega)
    simp only [List.foldl_cons, List.foldl_nil]
    rw [utf8_two (by omega) (by omega) (by omega), hb, ofNat_tail ⟨hlo, hhi⟩]
    rfl
  rw [if_neg h2]
  by_cases h3 : b = 0xE0
  · rw [if_pos h3]
    exact Or.inr ⟨rfl, opened_three (by decide) (by rw [h3]; rfl) (by decide) (by decide)
      (fun _ => by decide) (by decide)⟩
  rw [if_neg h3]
  by_cases h4 : b = 0xED
  · rw [if_pos h4]
    exact Or.inr ⟨rfl, opened_three (by decide) (by rw [h4]; rfl) (by decide) (by decide)
      (by decide) (fun _ => by decide)⟩
  rw [if_neg h4]
  have hE0 : b.toNat ≠ 0xE0 := fun h => h3 (UInt8.toNat_inj.1 h)
  have hED : b.toNat ≠ 0xED := fun h => h4 (UInt8.toNat_inj.1 h)
  by_cases h5 : (0xE1 : UInt8).toNat ≤ b.toNat ∧ b.toNat ≤ (0xEF : UInt8).toNat
  · rw [if_pos h5]
    simp only [UInt8.reduceToNat] at h5
    exact Or.inr ⟨rfl, opened_three (by omega) (ofNat_digit (by omega)) (by decide) (by decide)
      (by omega) (by omega)⟩
  rw [if_neg h5]
  by_cases h6 : b = 0xF0
  · rw [if_pos h6]
    exact Or.inr ⟨rfl, opened_four (by decide) (by rw [h6]; rfl) (by decide) (by decide)
      (fun _ => by decide) (by decide)⟩
  rw [if_neg h6]
  by_cases h7 : (0xF1 : UInt8).toNat ≤ b.toNat ∧ b.toNat ≤ (0xF3 : UInt8).toNat
  · rw [if_pos h7]
    simp only [UInt8.reduceToNat] at h7
    exact Or.inr ⟨rfl, opened_four (by omega) (ofNat_digit (by omega)) (by decide) (by decide)
      (by omega) (by omega)⟩
  rw [if_neg h7]
  by_cases h8 : b = 0xF4
  · rw [if_pos h8]
    exact Or.inr ⟨rfl, opened_four (by decide) (by rw [h8]; rfl) (by decide) (by decide)
      (by decide) (fun _ => by decide)⟩
  rw [if_neg h8]
  exact Or.inl ⟨rfl, Or.inr rfl⟩

/-- One byte more: it gives a U+FFFD, or what is open and the text stand for the bytes
so far. -/
theorem feed_opened {st : Pending} {pre : List UInt8} (h : Opened st pre) (b : UInt8) :
    replacement ∈ (feed st b).2 ∨
      ∃ pre', Opened (feed st b).1 pre' ∧ encode (feed st b).2 ++ pre' = pre ++ [b] := by
  cases st with
  | idle =>
    obtain rfl : pre = [] := h
    rw [feed]
    rcases start_cases b with ⟨hidle, htext | htext⟩ | ⟨htext, hopen⟩
    · exact Or.inr ⟨[], by rw [hidle]; rfl, by rw [htext]; rfl⟩
    · exact Or.inl (by rw [htext]; exact List.mem_cons_self)
    · exact Or.inr ⟨[b], hopen, by rw [htext]; rfl⟩
  | need code lo hi more =>
    rw [feed.eq_def]
    by_cases hb : lo ≤ b ∧ b ≤ hi
    · right
      simp only [if_pos hb]
      cases more with
      | zero =>
        refine ⟨[], rfl, ?_⟩
        have hchar := h b [] hb.1 hb.2 rfl (fun x hx => by cases hx)
        simp only [List.foldl_cons, List.foldl_nil] at hchar
        rw [encode_cons, encode_nil, List.append_nil, List.append_nil, hchar]
      | succ more =>
        refine ⟨pre ++ [b], ?_, rfl⟩
        intro b1 bs hlo hhi hlen htail
        have hchar := h b (b1 :: bs) hb.1 hb.2 (by rw [List.length_cons, hlen])
          (List.forall_mem_cons.2 ⟨⟨hlo, hhi⟩, htail⟩)
        rw [List.append_assoc]
        exact hchar
    · left
      simp only [if_neg hb]
      exact List.mem_cons_self

/-- A text without U+FFFD stands for the bytes. -/
theorem encode_feedAll {st : Pending} {pre : List UInt8} (h : Opened st pre) (bytes : List UInt8)
    (hclean : replacement ∉ (feedAll st bytes).2 ++ flush (feedAll st bytes).1) :
    encode ((feedAll st bytes).2 ++ flush (feedAll st bytes).1) = pre ++ bytes := by
  induction bytes generalizing st pre with
  | nil =>
    rw [feedAll] at hclean ⊢
    cases st with
    | idle =>
      obtain rfl : pre = [] := h
      rfl
    | need code lo hi more => exact absurd List.mem_cons_self hclean
  | cons b bytes ih =>
    rw [feedAll] at hclean ⊢
    dsimp only at hclean ⊢
    rw [List.append_assoc, List.mem_append, not_or] at hclean
    rcases feed_opened h b with hbad | ⟨pre', hopen, hpre⟩
    · exact absurd hbad hclean.1
    · rw [List.append_assoc, encode_append, ih hopen hclean.2, ← List.append_assoc, hpre,
        List.append_assoc]
      rfl

/-- **No loss without a mark.**  Where the text holds no U+FFFD, its encoding is the bytes. -/
theorem encode_fromUtf8Lossy {bytes : List UInt8} (hclean : replacement ∉ fromUtf8Lossy bytes) :
    encode (fromUtf8Lossy bytes) = bytes := by
  have hopened : Opened .idle [] := rfl
  exact encode_feedAll hopened bytes hclean

/-! ## The size of the text -/

/-- What is open costs a U+FFFD at most. -/
def owed : Pending → Nat
  | .idle => 0
  | .need _ _ _ _ => 3

theorem length_flush (st : Pending) : (encode (flush st)).length = owed st := by
  cases st with
  | idle => rfl
  | need code lo hi more => rfl

theorem length_char (c : Char) : (encode [c]).length ≤ 4 := by
  rw [length_encode_cons]
  exact Char.utf8Size_le_four c

theorem length_replacement : (encode [replacement]).length = 3 := by decide

theorem owed_le (st : Pending) : owed st ≤ 3 := by
  cases st with
  | idle => exact Nat.zero_le 3
  | need code lo hi more => exact Nat.le_refl 3

theorem start_size (b : UInt8) : (encode (start b).2).length + owed (start b).1 ≤ 3 := by
  rcases start_cases b with ⟨hidle, htext | htext⟩ | ⟨htext, -⟩
  · rw [hidle, htext]
    show 1 + 0 ≤ 3
    decide
  · rw [hidle, htext, length_replacement]
    decide
  · rw [htext, encode_nil, List.length_nil, Nat.zero_add]
    exact owed_le _

theorem feed_size (st : Pending) (b : UInt8) :
    (encode (feed st b).2).length + owed (feed st b).1 ≤ owed st + 3 := by
  cases st with
  | idle =>
    rw [feed]
    have hstart := start_size b
    omega
  | need code lo hi more =>
    rw [feed.eq_def]
    by_cases hb : lo ≤ b ∧ b ≤ hi
    · simp only [if_pos hb]
      cases more with
      | zero =>
        have hchar := length_char (Char.ofNat (code * 0x40 + b.toNat % 0x40))
        simp only [owed]
        omega
      | succ more => simp [owed]
    · have hstart := start_size b
      have howed : owed (.need code lo hi more) = 3 := rfl
      simp only [if_neg hb]
      rw [← List.singleton_append, encode_append, List.length_append, length_replacement]
      omega

theorem feedAll_size (st : Pending) (bytes : List UInt8) :
    (encode ((feedAll st bytes).2 ++ flush (feedAll st bytes).1)).length ≤
      owed st + 3 * bytes.length := by
  induction bytes generalizing st with
  | nil =>
    rw [feedAll, List.nil_append, length_flush]
    exact Nat.le_refl _
  | cons b bytes ih =>
    have hstep := feed_size st b
    have hrest := ih (feed st b).1
    rw [feedAll]
    dsimp only
    rw [List.append_assoc, encode_append, List.length_append, List.length_cons]
    omega

/-- **Size.**  A byte becomes at most one U+FFFD, of three bytes. -/
theorem fromUtf8Lossy_size (bytes : List UInt8) :
    (encode (fromUtf8Lossy bytes)).length ≤ 3 * bytes.length := by
  have h := feedAll_size .idle bytes
  rw [owed, Nat.zero_add] at h
  exact h

example : fromUtf8Lossy [0x68, 0xC3, 0xA9, 0xE2, 0x82, 0xFF, 0xF0, 0x9F, 0x98, 0x80] =
    ['h', 'é', replacement, replacement, '😀'] := by decide

end Utf8
