import Mathlib.Data.List.Sort
import Mathlib.Data.String.Basic
import Mathlib.Data.List.TakeWhile
import NetCore.Lib.Framing
import NetCore.Lib.Text

/-!
# The digest of a credential bundle

`digestPreimage pairs` is the byte string `digest_credential_bundle` feeds to
the hasher: the pairs sorted by field (stably), each written
`field=value<newline>`.  Nothing is escaped, so the bytes do not determine an
arbitrary list of pairs.  They determine the bundles of one profile: those
differ in the values only, a header value holds no line feed, and the URL,
which may hold anything, is sorted last.

    bundle_preimage_inj   same header names, line-feed-free values
    static_preimage_ne    a bundle with headers is not a URL alone
-/

namespace NetCore

open Text Framing

/-- By field only; the sort is stable, as `sort_by` is. -/
def sortPairs (pairs : List (String × String)) : List (String × String) :=
  pairs.insertionSort fun a b => a.1 ≤ b.1

/-- What `digest_credential_bundle` passes to `hasher.update`, in order. -/
def digestPreimage (pairs : List (String × String)) : ByteArray :=
  (sortPairs pairs).foldl
    (fun fed kv => fed ++ kv.1.toUTF8 ++ "=".toUTF8 ++ kv.2.toUTF8 ++ "\n".toUTF8)
    ByteArray.empty

/-- `digest_credential_bundle`, for the hash function `hash`. -/
def digestCredentialBundle {D : Type} (hash : ByteArray → D) (pairs : List (String × String)) : D :=
  hash (digestPreimage pairs)

/-- The digest pairs of a resolved URL and header map. -/
def digestPairs (url : String) (headers : List (String × String)) : List (String × String) :=
  ("url", url) :: headers.map fun h => ("hdr:" ++ toAsciiLowercase h.1, h.2)

/-! ## The bytes as a framed text -/

def framed (pairs : List (String × String)) : List Char :=
  frame '=' '\n' (pairs.map fun kv => (kv.1.toList, kv.2.toList))

theorem framed_append (xs ys : List (String × String)) :
    framed (xs ++ ys) = framed xs ++ framed ys := by
  unfold framed
  rw [List.map_append, frame_append]

theorem digestPreimage_eq (pairs : List (String × String)) :
    digestPreimage pairs = (String.ofList (framed (sortPairs pairs))).toUTF8 := by
  have key : ∀ (l : List (String × String)) (s : String),
      l.foldl (fun fed kv => fed ++ kv.1.toUTF8 ++ "=".toUTF8 ++ kv.2.toUTF8 ++ "\n".toUTF8)
        s.toUTF8 = (s ++ String.ofList (framed l)).toUTF8 := by
    intro l
    induction l with
    | nil => intro s; simp [framed]
    | cons kv l ih =>
      intro s
      rw [List.foldl_cons]
      simp only [String.toUTF8, ← String.toByteArray_append] at ih ⊢
      rw [ih]
      congr 1
      apply String.ext
      simp [framed, record]
  exact key _ ""

theorem digestPreimage_inj {xs ys : List (String × String)}
    (h : digestPreimage xs = digestPreimage ys) : framed (sortPairs xs) = framed (sortPairs ys) := by
  rw [digestPreimage_eq, digestPreimage_eq] at h
  exact String.ofList_inj.1 (String.toByteArray_inj.1 h)

/-! ## Bundles of one profile -/

/-- Every header field sorts before the URL. -/
theorem hdr_lt_url (name : String) : "hdr:" ++ name < "url" := by
  rw [String.lt_iff_toList_lt, String.toList_append]
  exact List.Lex.rel (by decide)

/-- The URL is the last pair of the preimage. -/
theorem sortPairs_digestPairs (url : String) (headers : List (String × String)) :
    sortPairs (digestPairs url headers) =
      sortPairs (headers.map fun h => ("hdr:" ++ toAsciiLowercase h.1, h.2)) ++ [("url", url)] := by
  unfold sortPairs digestPairs
  rw [List.insertionSort_cons_eq_take_drop]
  have hall : ∀ b ∈ (headers.map fun h => ("hdr:" ++ toAsciiLowercase h.1, h.2)).insertionSort
      (fun a b : String × String => a.1 ≤ b.1), decide (¬ ("url" ≤ b.1)) = true := by
    intro b hb
    rw [List.mem_insertionSort] at hb
    obtain ⟨h, -, rfl⟩ := List.mem_map.1 hb
    exact decide_eq_true (not_le.2 (hdr_lt_url _))
  rw [List.takeWhile_eq_self_iff.2 hall, List.dropWhile_eq_nil_iff.2 hall]

/-- Two lists with the same fields, as one list of fields with two values. -/
theorem exists_pairing (xs ys : List (String × String)) (h : xs.map Prod.fst = ys.map Prod.fst) :
    ∃ fs : List (String × String × String),
      xs = fs.map (fun f => (f.1, f.2.1)) ∧ ys = fs.map (fun f => (f.1, f.2.2)) := by
  induction xs generalizing ys with
  | nil =>
    cases ys with
    | nil => exact ⟨[], rfl, rfl⟩
    | cons y ys => cases h
  | cons x xs ih =>
    cases ys with
    | nil => cases h
    | cons y ys =>
      obtain ⟨h1, h2⟩ := List.cons.inj h
      obtain ⟨fs, rfl, rfl⟩ := ih ys h2
      refine ⟨(x.1, x.2, y.2) :: fs, rfl, ?_⟩
      rw [List.map_cons, h1]

/-- The digest pairs of header fields, each with the values of two bundles. -/
def digestFields (fs : List (String × String × String)) : List (String × String × String) :=
  (fs.map fun f => ("hdr:" ++ toAsciiLowercase f.1, f.2)).insertionSort fun a b => a.1 ≤ b.1

/-- Sorting looks at the fields only, so both bundles are sorted alike. -/
theorem sortPairs_fields (fs : List (String × String × String)) (v : String × String → String) :
    sortPairs ((fs.map fun f => (f.1, v f.2)).map fun h => ("hdr:" ++ toAsciiLowercase h.1, h.2)) =
      (digestFields fs).map fun g => (g.1, v g.2) := by
  unfold sortPairs digestFields
  rw [List.map_insertionSort (s := fun a b : String × String => a.1 ≤ b.1) _ _ _
    (fun a _ b _ => Iff.rfl)]
  simp [Function.comp_def]

theorem mem_digestFields {fs : List (String × String × String)} {g : String × String × String} :
    g ∈ digestFields fs ↔ ∃ f ∈ fs, ("hdr:" ++ toAsciiLowercase f.1, f.2) = g := by
  unfold digestFields
  rw [List.mem_insertionSort, List.mem_map]

/-- The framed values of two bundles, before the URLs, agree only if all values do. -/
theorem framed_fields_inj {gs : List (String × String × String)}
    (hv : ∀ g ∈ gs, '\n' ∉ g.2.1.toList ∧ '\n' ∉ g.2.2.toList) {x y : List Char}
    (h : framed (gs.map fun g => (g.1, g.2.1)) ++ x =
      framed (gs.map fun g => (g.1, g.2.2)) ++ y) :
    (∀ g ∈ gs, g.2.1 = g.2.2) ∧ x = y := by
  have hlists : ∀ v : String × String → String, framed (gs.map fun g => (g.1, v g.2)) =
      frame '=' '\n' (gs.map fun g => (g.1.toList, (v g.2).toList)) := by
    intro v
    simp [framed, Function.comp_def]
  have hframe := frame_append_inj '=' '\n'
    (gs.map fun g => (g.1.toList, g.2.1.toList, g.2.2.toList)) (x := x) (y := y)
  rw [hlists Prod.fst, hlists Prod.snd] at h
  simp only [List.map_map, Function.comp_def, List.forall_mem_map] at hframe
  obtain ⟨hvals, hxy⟩ := hframe hv h
  exact ⟨fun g hg => String.toList_inj.1 (hvals g hg), hxy⟩

/-- **The preimage determines the bundle**, among bundles with the same header
names whose header values hold no line feed. -/
theorem bundle_preimage_inj {url url' : String} {hs hs' : List (String × String)}
    (hn : hs.map Prod.fst = hs'.map Prod.fst) (hv : ∀ h ∈ hs, '\n' ∉ h.2.toList)
    (hv' : ∀ h ∈ hs', '\n' ∉ h.2.toList)
    (h : digestPreimage (digestPairs url hs) = digestPreimage (digestPairs url' hs')) :
    url = url' ∧ hs = hs' := by
  have hf := digestPreimage_inj h
  rw [sortPairs_digestPairs, sortPairs_digestPairs, framed_append, framed_append] at hf
  obtain ⟨fs, rfl, rfl⟩ := exists_pairing hs hs' hn
  rw [sortPairs_fields fs Prod.fst, sortPairs_fields fs Prod.snd] at hf
  have hfree : ∀ g ∈ digestFields fs, '\n' ∉ g.2.1.toList ∧ '\n' ∉ g.2.2.toList := by
    intro g hg
    obtain ⟨f, hfs, rfl⟩ := mem_digestFields.1 hg
    rw [List.forall_mem_map] at hv hv'
    exact ⟨hv f hfs, hv' f hfs⟩
  obtain ⟨hvals, hurl⟩ := framed_fields_inj hfree hf
  constructor
  · apply String.toList_inj.1
    simpa [framed, record] using hurl
  · apply List.map_congr_left
    intro f hfs
    have hval := hvals ("hdr:" ++ toAsciiLowercase f.1, f.2) (mem_digestFields.2 ⟨f, hfs, rfl⟩)
    exact Prod.ext rfl hval

/-- A bundle with a header never has the preimage of a URL alone. -/
theorem static_preimage_ne {url url' : String} {hs : List (String × String)} (hne : hs ≠ []) :
    digestPreimage (digestPairs url hs) ≠ digestPreimage (digestPairs url' []) := by
  intro h
  have hf := digestPreimage_inj h
  rw [sortPairs_digestPairs, sortPairs_digestPairs, framed_append] at hf
  cases hs with
  | nil => exact hne rfl
  | cons x xs =>
    have hp := List.perm_insertionSort (fun a b : String × String => a.1 ≤ b.1)
      ((x :: xs).map fun h => ("hdr:" ++ toAsciiLowercase h.1, h.2))
    unfold sortPairs at hf
    cases hs : ((x :: xs).map fun h => ("hdr:" ++ toAsciiLowercase h.1, h.2)).insertionSort
        (fun a b : String × String => a.1 ≤ b.1) with
    | nil => rw [hs] at hp; simp at hp
    | cons g gs =>
      have hg : g ∈ (x :: xs).map fun h => ("hdr:" ++ toAsciiLowercase h.1, h.2) := by
        rw [← hp.mem_iff, hs]
        exact List.mem_cons_self
      obtain ⟨a, -, rfl⟩ := List.mem_map.1 hg
      rw [hs] at hf
      simp [framed, record] at hf

end NetCore
