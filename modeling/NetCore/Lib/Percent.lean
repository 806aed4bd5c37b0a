import Mathlib.Data.List.Basic
import NetCore.Lib.Text

/-!
# Percent-encoded pairs

A byte is written as itself where `keep` says so, and else as `%XX`.  Decoding
reads `%XX` as one byte and any other character as its UTF-8 bytes, so it undoes
encoding as long as the kept bytes are ASCII and not `%` (`Safe`, `decode_encode`).

A text of pairs is cut at each `&`, and each piece at its first `=`.  If neither
letter is kept, encoded pairs joined by `&` read back as they were (`pairs_join`),
also behind a text that was there before (`pairs_append`).
-/

namespace Percent

open Text

/-! ## One byte -/

def hexDigit (n : Nat) : Char := Char.ofNat (if n < 10 then 48 + n else 55 + n)

def hexValue (c : Char) : Option Nat :=
  if 48 ≤ c.toNat ∧ c.toNat ≤ 57 then some (c.toNat - 48)
  else if 65 ≤ c.toNat ∧ c.toNat ≤ 70 then some (c.toNat - 55)
  else if 97 ≤ c.toNat ∧ c.toNat ≤ 102 then some (c.toNat - 87)
  else none

def encodeByte (keep : UInt8 → Bool) (b : UInt8) : List Char :=
  if keep b then [Char.ofNat b.toNat]
  else ['%', hexDigit (b.toNat / 16), hexDigit (b.toNat % 16)]

def encode (keep : UInt8 → Bool) (bytes : List UInt8) : List Char := bytes.flatMap (encodeByte keep)

def decode : List Char → List UInt8
  | [] => []
  | '%' :: a :: b :: rest =>
    match hexValue a, hexValue b with
    | some x, some y => UInt8.ofNat (16 * x + y) :: decode rest
    | _, _ => 37 :: decode (a :: b :: rest)
  | c :: rest => String.utf8EncodeChar c ++ decode rest

/-- The kept bytes are ASCII, and not the escape. -/
def Safe (keep : UInt8 → Bool) : Prop := ∀ b, keep b = true → b.toNat < 128 ∧ b.toNat ≠ 37

theorem hexValue_hexDigit : ∀ n, n < 16 → hexValue (hexDigit n) = some n := by decide

/-- An ASCII byte as a character, encoded again. -/
theorem utf8EncodeChar_ascii : ∀ n, n < 128 →
    String.utf8EncodeChar (Char.ofNat n) = [UInt8.ofNat n] := by
  decide +kernel

theorem ofNat_ne_percent : ∀ n, n < 128 → n ≠ 37 → Char.ofNat n ≠ '%' := by decide

theorem decode_cons_of_ne {c : Char} (h : c ≠ '%') (rest : List Char) :
    decode (c :: rest) = String.utf8EncodeChar c ++ decode rest := by
  rw [decode]
  intro a b rest' hc
  exact absurd hc h

theorem decode_encodeByte {keep : UInt8 → Bool} (hkeep : Safe keep) (b : UInt8) (rest : List Char) :
    decode (encodeByte keep b ++ rest) = b :: decode rest := by
  unfold encodeByte
  split
  · next hb =>
    obtain ⟨hascii, hpercent⟩ := hkeep b hb
    rw [List.singleton_append, decode_cons_of_ne (ofNat_ne_percent _ hascii hpercent),
      utf8EncodeChar_ascii _ hascii]
    simp
  · have hlt := b.toNat_lt
    simp only [List.cons_append, List.nil_append, decode]
    rw [hexValue_hexDigit _ (by omega), hexValue_hexDigit _ (by omega)]
    show UInt8.ofNat (16 * (b.toNat / 16) + b.toNat % 16) :: decode rest = b :: decode rest
    rw [Nat.div_add_mod, UInt8.ofNat_toNat]

/-- **Decoding undoes encoding.** -/
theorem decode_encode {keep : UInt8 → Bool} (hkeep : Safe keep) (bytes : List UInt8) :
    decode (encode keep bytes) = bytes := by
  induction bytes with
  | nil => rfl
  | cons b bytes ih =>
    show decode (encodeByte keep b ++ encode keep bytes) = b :: bytes
    rw [decode_encodeByte hkeep, ih]

/-- The letters of an encoded text. -/
theorem mem_encode {keep : UInt8 → Bool} {bytes : List UInt8} {c : Char}
    (h : c ∈ encode keep bytes) :
    c = '%' ∨ (∃ n, n < 16 ∧ c = hexDigit n) ∨ ∃ b, keep b = true ∧ c = Char.ofNat b.toNat := by
  obtain ⟨b, -, hc⟩ := List.mem_flatMap.1 h
  unfold encodeByte at hc
  split at hc
  · next hb => exact Or.inr (Or.inr ⟨b, hb, List.mem_singleton.1 hc⟩)
  · have hlt := b.toNat_lt
    simp only [List.mem_cons, List.not_mem_nil, or_false] at hc
    rcases hc with rfl | rfl | rfl
    · exact Or.inl rfl
    · exact Or.inr (Or.inl ⟨_, by omega, rfl⟩)
    · exact Or.inr (Or.inl ⟨_, by omega, rfl⟩)

/-! ## Pairs -/

abbrev Pair := List UInt8 × List UInt8

def pairOf (piece : List Char) : Pair :=
  match splitOnce '=' piece with
  | some (key, value) => (decode key, decode value)
  | none => (decode piece, [])

/-- The pairs of a query. -/
def pairs (query : List Char) : List Pair :=
  if query = [] then [] else (query.splitOn '&').map pairOf

def encodePair (keep : UInt8 → Bool) (p : Pair) : List Char :=
  encode keep p.1 ++ '=' :: encode keep p.2

/-- Encoded pairs, joined. -/
def join (keep : UInt8 → Bool) (ps : List Pair) : List Char :=
  ['&'].intercalate (ps.map (encodePair keep))

/-- The separators are not kept. -/
structure Separated (keep : UInt8 → Bool) : Prop where
  safe : Safe keep
  ampersand : keep 38 = false
  equals : keep 61 = false

theorem pairs_append {xs ys : List Char} (hx : xs ≠ []) (hy : ys ≠ []) :
    pairs (xs ++ '&' :: ys) = pairs xs ++ pairs ys := by
  unfold pairs
  rw [if_neg (by simp), if_neg hx, if_neg hy, List.splitOn_append_cons_self, List.map_append]

theorem toNat_ofNat_ascii : ∀ n, n < 128 → (Char.ofNat n).toNat = n := by decide

variable {keep : UInt8 → Bool}

/-- An ASCII letter that is not kept, no hex digit and not the escape is in no encoded
text. -/
theorem notMem_encode (hsafe : Safe keep) {n : Nat} (hn : n < 128) (hkept : keep (.ofNat n) = false)
    (hhex : ∀ d, d < 16 → hexDigit d ≠ Char.ofNat n) (hescape : Char.ofNat n ≠ '%')
    (bytes : List UInt8) : Char.ofNat n ∉ encode keep bytes := by
  intro h
  rcases mem_encode h with h | ⟨d, hd, h⟩ | ⟨b, hb, h⟩
  · exact hescape h
  · exact hhex d hd h.symm
  · have hbn : b.toNat = n := by
      rw [← toNat_ofNat_ascii b.toNat (hsafe b hb).1, ← h, toNat_ofNat_ascii n hn]
    rw [← hbn, UInt8.ofNat_toNat, hb] at hkept
    cases hkept

theorem ampersand_notMem (hkeep : Separated keep) (bytes : List UInt8) : '&' ∉ encode keep bytes :=
  notMem_encode hkeep.safe (by decide) hkeep.ampersand (by decide) (by decide) bytes

theorem equals_notMem (hkeep : Separated keep) (bytes : List UInt8) : '=' ∉ encode keep bytes :=
  notMem_encode hkeep.safe (by decide) hkeep.equals (by decide) (by decide) bytes

theorem pairOf_encodePair (hkeep : Separated keep) (p : Pair) : pairOf (encodePair keep p) = p := by
  unfold pairOf encodePair
  rw [splitOnce_append _ (equals_notMem hkeep p.1)]
  show (decode (encode keep p.1), decode (encode keep p.2)) = p
  rw [decode_encode hkeep.safe, decode_encode hkeep.safe]

theorem ampersand_notMem_pair (hkeep : Separated keep) (p : Pair) : '&' ∉ encodePair keep p := by
  unfold encodePair
  rw [List.mem_append, List.mem_cons, not_or, not_or]
  exact ⟨ampersand_notMem hkeep p.1, by decide, ampersand_notMem hkeep p.2⟩

theorem join_eq_nil {ps : List Pair} : join keep ps = [] ↔ ps = [] := by
  cases ps with
  | nil => simp [join]
  | cons p ps =>
    cases ps with
    | nil => simp [join, encodePair]
    | cons q ps => simp [join, encodePair]

/-- The letters of joined pairs. -/
theorem mem_join {ps : List Pair} {c : Char} (h : c ∈ join keep ps) :
    c = '&' ∨ c = '=' ∨ ∃ bytes, c ∈ encode keep bytes := by
  have hpair : ∀ p : Pair, c ∈ encodePair keep p → c = '=' ∨ ∃ bytes, c ∈ encode keep bytes := by
    intro p hp
    unfold encodePair at hp
    rw [List.mem_append, List.mem_cons] at hp
    rcases hp with hp | rfl | hp
    · exact Or.inr ⟨_, hp⟩
    · exact Or.inl rfl
    · exact Or.inr ⟨_, hp⟩
  induction ps with
  | nil => simp [join] at h
  | cons p ps ih =>
    cases ps with
    | nil => exact Or.inr (hpair p (by simpa [join] using h))
    | cons q ps =>
      have hcons : join keep (p :: q :: ps) = encodePair keep p ++ '&' :: join keep (q :: ps) := by
        simp [join, List.intercalate_cons_cons]
      rw [hcons, List.mem_append, List.mem_cons] at h
      rcases h with h | rfl | h
      · exact Or.inr (hpair p h)
      · exact Or.inl rfl
      · exact ih h

/-- **Encoded pairs read back.** -/
theorem pairs_join (hkeep : Separated keep) (ps : List Pair) : pairs (join keep ps) = ps := by
  unfold pairs
  split
  · next hnil => exact (join_eq_nil.1 hnil).symm
  · next hne =>
    have hps : ps.map (encodePair keep) ≠ [] := by
      intro h
      rw [List.map_eq_nil_iff] at h
      exact hne (join_eq_nil.2 h)
    have hfree : ∀ piece ∈ ps.map (encodePair keep), '&' ∉ piece := by
      intro piece hpiece
      obtain ⟨p, -, rfl⟩ := List.mem_map.1 hpiece
      exact ampersand_notMem_pair hkeep p
    unfold join
    rw [List.splitOn_intercalate '&' hfree hps, List.map_map]
    calc ps.map (pairOf ∘ encodePair keep) = ps.map id := by
          apply List.map_congr_left
          intro p _
          exact pairOf_encodePair hkeep p
      _ = ps := List.map_id ps

end Percent
